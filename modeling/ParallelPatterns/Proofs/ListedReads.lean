import ParallelPatterns.Input.FlowFile
import ParallelPatterns.Proofs.AccessTables
import ParallelPatterns.Proofs.DependenceText

/-!
# Two readings of the listed reads

A line of a dependence file lists pairs of a type and a source. `DependenceFile` reads the pairs of
a line, and of them `reads` are those whose type is a read after a write. `Flows` looks for the type
names among the words of a line and takes the word behind `RAW`. So it sees a read only if it is
written without an iteration level, fails if the source of one names no variable, and keeps a memory
region as a part of the variable's name. The two readings agree exactly on the lines where no read
is written in one of these ways.

* `Flows.filterMap_lead?_entriesGo`: the entries of a line that begin with `RAW` are its pairs of
that type. * `Flows.foldlM_addLine_text`, `Flows.getD_run`: what reading a file by `Flows` gives. *
`Listing.plainRead?_eq_read?_iff`: when a pair is read in the same way. * `Flows.getD_eq_reads_iff`:
the two readings of a file.
-/

namespace ParallelPatterns

open List Text DependenceRecord

variable {acc : List String} {p : String × String} {ps : List (String × String)}

/-- A line that lists dependences: pairs of a type and a source behind the tag, and maybe more
blanks in front of them. The sources and the tag are told from the types by their words. -/
structure Listing where
  sink : String
  gap : Nat
  pairs : List (String × String)
  isWord_sink : IsWord sink
  ne_nil : pairs ≠ []
  isWord_type : ∀ p ∈ pairs, IsWord p.1 ∧ p.1 ≠ "NOM"
  isWord_source : ∀ p ∈ pairs, IsWord p.2 ∧ p.2 ≠ "NOM" ∧ Flows.isType p.2 = false

namespace Listing

variable (l : Listing)

/-- The words behind the tag. -/
def words : List String := l.pairs.flatMap fun p => [p.1, p.2]

/-- What stands behind the tag. -/
def listed : String := times l.gap " " ++ " ".intercalate l.words

/-- The text of a line, without its end. -/
def text : String := l.sink ++ " NOM " ++ l.listed

/-- The text of a file. -/
def written (ls : List Listing) : String := String.join ((ls.map text).map (· ++ "\n"))

theorem isWord_of_mem_words {l : Listing} {w : String} (hw : w ∈ l.words) : IsWord w ∧ w ≠ "NOM" := by
  obtain ⟨p, hp, hw⟩ := mem_flatMap.1 hw
  simp only [mem_cons, not_mem_nil, or_false] at hw
  rcases hw with rfl | rfl
  · exact l.isWord_type p hp
  · exact ⟨(l.isWord_source p hp).1, (l.isWord_source p hp).2.1⟩

theorem words_ne_nil : l.words ≠ [] := by
  obtain ⟨p, ps, hps⟩ := exists_cons_of_ne_nil l.ne_nil
  simp [words, hps]

theorem toList_listed :
    l.listed.toList = replicate l.gap ' ' ++ [' '].intercalate (l.words.map String.toList) := by
  rw [listed, String.toList_append, String.toList_intercalate, times]
  simp [flatMap_replicate]

theorem words_text : Text.words (l.text ++ "\n") = l.sink :: "NOM" :: l.words := by
  have hwords : ∀ w ∈ l.words.map String.toList, w ≠ [] ∧ ∀ c ∈ w, isBlank c = false := by
    intro w hw
    obtain ⟨v, hv, rfl⟩ := mem_map.1 hw
    exact ⟨(isWord_of_mem_words hv).1.ne_nil, (isWord_of_mem_words hv).1.2⟩
  have hspace : isBlank ' ' := by decide
  have hfeed : isBlank '\n' := by decide
  have htag : IsWord "NOM" := by decide
  have hchars : (l.text ++ "\n").toList = l.sink.toList ++ ' ' :: ("NOM".toList ++ ' ' ::
      (replicate l.gap ' ' ++ ([' '].intercalate (l.words.map String.toList) ++ ['\n']))) := by
    rw [text, String.toList_append, String.toList_append, String.toList_append, toList_listed]
    simp
  rw [Text.words, hchars, wordsGo_word l.isWord_sink.ne_nil l.isWord_sink.2 hspace,
    wordsGo_word htag.ne_nil htag.2 hspace, wordsGo_replicate hspace,
    wordsGo_intercalate hwords hspace hfeed]
  simp

theorem split_listed : split " " l.listed = replicate l.gap "" ++ l.words := by
  have hspace : " ".toList = [' '] := rfl
  have hwords : ∀ w ∈ l.words, ' ' ∉ w.toList := fun w hw => (isWord_of_mem_words hw).1.notMem (by decide)
  rw [listed, split_times hspace, split_intercalate hspace l.words_ne_nil hwords]

theorem tag_not_infix_listed : ¬ " NOM ".toList <:+: l.listed.toList := by
  rintro ⟨before, behind, hlisted⟩
  have hspace : " ".toList = [' '] := rfl
  have hparts : l.listed = String.ofList before ++ " " ++ ("NOM" ++ " " ++ String.ofList behind) := by
    rw [← String.toList_inj, ← hlisted]
    simp
  have hmem : "NOM" ∈ split " " l.listed := by
    rw [hparts, split_append hspace, split_cons hspace (by decide)]
    simp
  rw [split_listed, mem_append] at hmem
  rcases hmem with hgap | hword
  · exact absurd (eq_of_mem_replicate hgap) (by decide)
  · exact (isWord_of_mem_words hword).2 rfl

theorem split_text : split " NOM " l.text = [l.sink, l.listed] := by
  have htag : " NOM ".toList = ' ' :: ("NOM".toList ++ [' ']) := rfl
  exact split_once htag (l.isWord_sink.notMem (by decide)) l.tag_not_infix_listed

theorem feed_notMem_text : '\n' ∉ l.text.toList := by
  have htag : '\n' ∉ " NOM ".toList := by decide
  have hwords : '\n' ∉ (" ".intercalate l.words).toList :=
    notMem_intercalate (by decide) fun w hw => (isWord_of_mem_words hw).1.notMem (by decide)
  rw [String.toList_intercalate] at hwords
  have hgap : '\n' ∉ replicate l.gap ' ' := fun hmem => absurd (eq_of_mem_replicate hmem) (by decide)
  rw [text, String.toList_append, String.toList_append, toList_listed, mem_append, mem_append,
    mem_append]
  rintro ((hmem | hmem) | hmem | hmem)
  · exact l.isWord_sink.notMem (by decide) hmem
  · exact htag hmem
  · exact hgap hmem
  · exact hwords hmem

theorem feedLines_written (ls : List Listing) : feedLines (written ls) = (ls.map text).map (· ++ "\n") := by
  refine feedLines_join fun t ht => ?_
  obtain ⟨l, -, rfl⟩ := mem_map.1 ht
  exact l.feed_notMem_text

end Listing

open Listing

/-! ## The entries of a line -/

/-- The line and the variable that a source names. -/
def originOf? (source : String) : Option (String × String) :=
  match split "|" source with
  | line :: var :: _ => some (line, var)
  | _ => none

theorem originOf?_eq_none_iff {source : String} : originOf? source = none ↔ '|' ∉ source.toList := by
  have hbar : "|".toList = ['|'] := rfl
  rcases exists_of_split hbar source with ⟨hfree, hparts⟩ | ⟨first, rest, hsource, -, hparts⟩
  · simp [originOf?, hparts, hfree]
  · obtain ⟨part, parts, hrest⟩ := exists_cons_of_ne_nil (split_ne_nil "|" rest)
    have hmem : '|' ∈ source.toList := by simp [hsource]
    simp [originOf?, hparts, hrest, hmem]

namespace Flows

def source? (p : String × String) : Option String := if p.1 = "RAW" then some p.2 else none

def lead? : List String → Option String
  | type :: source :: _ => source? (type, source)
  | _ => none

def readFrom (source : String) : Result (String × String) :=
  match originOf? source with
  | some (line, var) => .ok (line, replace ".addr" "" var)
  | none => .error .outOfRange

theorem flow?_of_lead? {entry : List String} {source : String} (h : lead? entry = some source) :
    flow? entry = some <$> readFrom source := by
  rcases entry with _ | ⟨type, _ | ⟨first, rest⟩⟩
  · cases h
  · cases h
  · obtain ⟨rfl, rfl⟩ : type = "RAW" ∧ first = source := by simpa [lead?, source?] using h
    unfold readFrom originOf?
    have hflow : flow? ("RAW" :: first :: rest) =
        match split "|" first with
        | line :: var :: _ => .ok (some (line, replace ".addr" "" var))
        | _ => .error .outOfRange := rfl
    rw [hflow]
    rcases split "|" first with _ | ⟨line, _ | ⟨var, parts⟩⟩ <;> rfl

theorem flow?_of_not_lead? {entry : List String} (h : lead? entry = none) (hne : entry ≠ ["RAW"]) :
    flow? entry = .ok none := by
  unfold flow?
  split
  · simp [lead?, source?] at h
  · exact absurd rfl hne
  · rfl

theorem mapM_flow? {entries : List (List String)} (h : ∀ e ∈ entries, e ≠ ["RAW"]) :
    (entries.mapM flow?).map (·.filterMap id) = (entries.filterMap lead?).mapM readFrom := by
  induction entries with
  | nil => rfl
  | cons e entries ih =>
    have hrest := ih fun e' he' => h e' (by simp [he'])
    rw [mapM_cons]
    cases hlead : lead? e with
    | none =>
      rw [filterMap_cons_none hlead, ← hrest, flow?_of_not_lead? hlead (h e (by simp))]
      cases entries.mapM flow? <;> rfl
    | some source =>
      rw [filterMap_cons_some hlead, mapM_cons, ← hrest, flow?_of_lead? hlead]
      cases readFrom source with
      | error e => rfl
      | ok r => cases entries.mapM flow? <;> rfl

def wordsOf (ps : List (String × String)) : List String := ps.flatMap fun p => [p.1, p.2]

/-- An entry that was begun is empty or has a type and a source, so that what follows does not
change whether it reads. -/
def Begun (entry : List String) : Prop := entry = [] ∨ ∃ type source rest, entry = type :: source :: rest

theorem Begun.lead?_append (h : Begun acc) {type source : String} (htype : type ≠ "RAW") :
    lead? (acc ++ [type, source]) = lead? acc := by
  rcases h with rfl | ⟨t, s, rest, rfl⟩
  · simp [lead?, source?, htype]
  · rfl

theorem Begun.append (h : Begun acc) (type source : String) : Begun (acc ++ [type, source]) := by
  rcases h with rfl | ⟨t, s, rest, rfl⟩
  · exact .inr ⟨type, source, [], rfl⟩
  · exact .inr ⟨t, s, rest ++ [type, source], rfl⟩

theorem entriesGo_wordsOf_cons (htype : p.1 ≠ "") (hsource : isType p.2 = false)
    (ps : List (String × String)) (acc : List String) :
    entriesGo acc (wordsOf (p :: ps)) =
      if isType p.1 then (if acc.isEmpty then [] else [acc]) ++ entriesGo [p.1, p.2] (wordsOf ps)
      else entriesGo (acc ++ [p.1, p.2]) (wordsOf ps) := by
  have hwords : wordsOf (p :: ps) = p.1 :: p.2 :: wordsOf ps := rfl
  have hnext : ∀ begun, begun ≠ [] → entriesGo begun (p.2 :: wordsOf ps) =
    entriesGo (begun ++ [p.2]) (wordsOf ps) := by
    intro begun hbegun
    simp [entriesGo, hsource, hbegun]
  rw [hwords, entriesGo]
  split
  · rw [hnext [p.1] (cons_ne_nil _ _)]
    rfl
  · rw [if_neg (by simp [htype]), hnext _ (by simp)]
    simp

theorem filterMap_lead?_closed (acc : List String) :
    (if acc.isEmpty then [] else [acc]).filterMap lead? = (lead? acc).toList := by
  cases acc with
  | nil => rfl
  | cons w acc => cases hlead : lead? (w :: acc) <;> simp [hlead]

theorem filterMap_lead?_entriesGo (htype : ∀ p ∈ ps, p.1 ≠ "")
    (hsource : ∀ p ∈ ps, isType p.2 = false) (hacc : Begun acc) :
    (entriesGo acc (wordsOf ps)).filterMap lead? = (lead? acc).toList ++ ps.filterMap source? := by
  induction ps generalizing acc with
  | nil => simpa [wordsOf, entriesGo] using filterMap_lead?_closed acc
  | cons p ps ih =>
    have hrest := fun q hq => htype q (mem_cons_of_mem p hq)
    have hrest' := fun q hq => hsource q (mem_cons_of_mem p hq)
    have hpair : lead? [p.1, p.2] = source? p := rfl
    rw [entriesGo_wordsOf_cons (htype p (by simp)) (hsource p (by simp))]
    split
    · rw [filterMap_append, filterMap_lead?_closed, ih hrest hrest' (.inr ⟨p.1, p.2, [], rfl⟩), hpair]
      cases hp : source? p <;> simp [hp]
    · next hkind =>
      have hread : p.1 ≠ "RAW" := by
        intro hp
        exact hkind (by rw [hp]; rfl)
      have hp : source? p = none := if_neg hread
      rw [ih hrest hrest' (hacc.append p.1 p.2), hacc.lead?_append hread, filterMap_cons_none hp]

theorem ne_of_mem_entriesGo (htype : ∀ p ∈ ps, p.1 ≠ "") (hsource : ∀ p ∈ ps, isType p.2 = false)
    (hacc : Begun acc) : ∀ e ∈ entriesGo acc (wordsOf ps), e ≠ ["RAW"] := by
  have hclosed : ∀ acc : List String, Begun acc → acc ≠ ["RAW"] := by
    rintro acc (rfl | ⟨type, source, rest, rfl⟩) <;> simp
  induction ps generalizing acc with
  | nil =>
    intro e he
    have he : e ∈ if acc.isEmpty then [] else [acc] := he
    split at he
    · cases he
    · exact mem_singleton.1 he ▸ hclosed acc hacc
  | cons p ps ih =>
    have hrest := fun q hq => htype q (mem_cons_of_mem p hq)
    have hrest' := fun q hq => hsource q (mem_cons_of_mem p hq)
    rw [entriesGo_wordsOf_cons (htype p (by simp)) (hsource p (by simp))]
    split
    · intro e he
      rcases mem_append.1 he with he | he
      · split at he
        · cases he
        · exact mem_singleton.1 he ▸ hclosed acc hacc
      · exact ih hrest hrest' (.inr ⟨p.1, p.2, [], rfl⟩) e he
    · exact ih hrest hrest' (hacc.append p.1 p.2)

theorem entriesGo_replicate (n : Nat) (ws : List String) :
    entriesGo [] (replicate n "" ++ ws) = entriesGo [] ws := by
  induction n with
  | zero => rfl
  | succ n ih => exact ih

theorem addLine_text (t : Flows) (l : Listing) :
    t.addLine (l.text ++ "\n") =
      ((l.pairs.filterMap source?).mapM readFrom).map fun found => t.update l.sink [] (· ++ found) := by
  have htype : ∀ p ∈ l.pairs, p.1 ≠ "" := fun p hp => (l.isWord_type p hp).1.1
  have hsource : ∀ p ∈ l.pairs, isType p.2 = false := fun p hp => (l.isWord_source p hp).2.2
  have hreads := mapM_flow? (ne_of_mem_entriesGo htype hsource (.inl rfl))
  have hentries : entriesGo [] (split " " l.listed) = entriesGo [] (wordsOf l.pairs) := by
    rw [l.split_listed, entriesGo_replicate]
    rfl
  rw [filterMap_lead?_entriesGo htype hsource (.inl rfl)] at hreads
  unfold addLine
  rw [replace_feed l.feed_notMem_text, l.split_text]
  simp only [hentries]
  have hnone : (lead? []).toList ++ l.pairs.filterMap source? = l.pairs.filterMap source? := rfl
  rw [← hnone, ← hreads]
  cases (entriesGo [] (wordsOf l.pairs)).mapM flow? <;> rfl

/-! ## Reading a file -/

/-- The read of a pair that is written as one and names a variable. -/
def plainRead? (p : String × String) : Option (String × String) :=
  (source? p).bind fun source => (originOf? source).map fun origin => (origin.1, replace ".addr" "" origin.2)

/-- Every pair that is written as a read names a variable. -/
def NamesReads (l : Listing) : Prop := ∀ p ∈ l.pairs, p.1 = "RAW" → '|' ∈ p.2.toList

theorem mapM_readFrom_eq_ok_iff {found : List (String × String)} :
    (ps.filterMap source?).mapM readFrom = .ok found ↔
      (∀ p ∈ ps, p.1 = "RAW" → '|' ∈ p.2.toList) ∧ found = ps.filterMap plainRead? := by
  induction ps generalizing found with
  | nil => simp [pure, Except.pure]
  | cons p ps ih =>
    rw [forall_mem_cons]
    by_cases hp : p.1 = "RAW"
    · have hsource : source? p = some p.2 := if_pos hp
      rw [filterMap_cons_some hsource, mapM_cons, readFrom]
      cases horigin : originOf? p.2 with
      | none => simp [hp, originOf?_eq_none_iff.1 horigin, bind, Except.bind]
      | some origin =>
        have hbar : '|' ∈ p.2.toList := by
          by_contra hbar
          rw [originOf?_eq_none_iff.2 hbar] at horigin
          cases horigin
        have hread : plainRead? p = some (origin.1, replace ".addr" "" origin.2) := by
          simp [plainRead?, hsource, horigin]
        rw [filterMap_cons_some hread, bind_eq_ok_iff]
        constructor
        · rintro ⟨r, hr, hrest⟩
          cases hr
          obtain ⟨rest, htail, hfound⟩ := bind_eq_ok_iff.1 hrest
          cases hfound
          obtain ⟨hall, rfl⟩ := ih.1 htail
          exact ⟨⟨fun _ => hbar, hall⟩, rfl⟩
        · rintro ⟨⟨-, hall⟩, rfl⟩
          exact ⟨_, rfl, bind_eq_ok_iff.2 ⟨_, ih.2 ⟨hall, rfl⟩, rfl⟩⟩
    · have hsource : source? p = none := if_neg hp
      have hread : plainRead? p = none := by simp [plainRead?, hsource]
      rw [filterMap_cons_none hsource, filterMap_cons_none hread, ih]
      simp [hp]

def note (t : Flows) (l : Listing) : Flows := t.update l.sink [] (· ++ l.pairs.filterMap plainRead?)

theorem addLine_text_eq_ok_iff {t t' : Flows} {l : Listing} :
    t.addLine (l.text ++ "\n") = .ok t' ↔ NamesReads l ∧ t' = t.note l := by
  rw [addLine_text]
  cases hfound : (l.pairs.filterMap source?).mapM readFrom with
  | error e =>
    refine ⟨fun h => absurd h (by simp [Except.map]), ?_⟩
    rintro ⟨hnames, -⟩
    rw [mapM_readFrom_eq_ok_iff.2 ⟨hnames, rfl⟩] at hfound
    cases hfound
  | ok found =>
    obtain ⟨hnames, rfl⟩ := mapM_readFrom_eq_ok_iff.1 hfound
    simp only [Except.map, Except.ok.injEq]
    exact ⟨fun h => ⟨hnames, h.symm⟩, fun h => h.2.symm⟩

theorem foldlM_addLine_text {t t' : Flows} {ls : List Listing} :
    ((ls.map text).map (· ++ "\n")).foldlM addLine t = .ok t' ↔
      (∀ l ∈ ls, NamesReads l) ∧ t' = ls.foldl note t := by
  induction ls generalizing t with
  | nil => simp [pure, Except.pure, eq_comm]
  | cons l ls ih =>
    rw [map_cons, map_cons, foldlM_cons, bind_eq_ok_iff, forall_mem_cons]
    constructor
    · rintro ⟨t₁, hfirst, hrest⟩
      obtain ⟨hnames, rfl⟩ := addLine_text_eq_ok_iff.1 hfirst
      obtain ⟨hall, rfl⟩ := ih.1 hrest
      exact ⟨⟨hnames, hall⟩, rfl⟩
    · rintro ⟨⟨hnames, hall⟩, rfl⟩
      exact ⟨t.note l, addLine_text_eq_ok_iff.2 ⟨hnames, rfl⟩, ih.2 ⟨hall, rfl⟩⟩

end Flows

/-- The pairs that the lines of a sink list. -/
def Listing.pairsOn (ls : List Listing) (sink : String) : List (String × String) :=
  (ls.filter (·.sink == sink)).flatMap (·.pairs)

theorem Listing.pairsOn_cons (l : Listing) (ls : List Listing) (sink : String) :
    pairsOn (l :: ls) sink = (if l.sink == sink then l.pairs else []) ++ pairsOn ls sink := by
  unfold pairsOn
  rw [filter_cons]
  split
  · rw [flatMap_cons]
  · rw [nil_append]

theorem Flows.getD_foldl_note (t : Flows) (ls : List Listing) (sink : String) :
    (ls.foldl note t).getD sink [] = t.getD sink [] ++ (pairsOn ls sink).filterMap plainRead? := by
  induction ls generalizing t with
  | nil => simp [pairsOn]
  | cons l ls ih =>
    rw [foldl_cons, ih, note, Table.getD_update, pairsOn_cons]
    split <;> simp

/-! ## The reads of the recorded dependences -/

namespace DependenceRecord

/-- The line and the variable, without the mark of an address, that a record reads from. -/
def read? (d : DependenceRecord) : Option (String × String) :=
  match d.dependence with
  | .ok dep => if dep.isKind .readAfterWrite then some (d.source, replace ".addr" "" d.var) else none
  | .error _ => none

/-- A type of reads after writes. -/
def IsRead (type : String) : Prop := ∃ level, Dependence.parseKind type = .ok (.readAfterWrite, level)

theorem read?_eq_some_iff {d : DependenceRecord} {r : String × String} :
    d.read? = some r ↔ IsRead d.type ∧ r = (d.source, replace ".addr" "" d.var) := by
  unfold read? IsRead
  cases hkind : Dependence.parseKind d.type with
  | error e =>
    have hdep : d.dependence = .error e := by simp [dependence, Dependence.ofRecord, hkind]
    simp [hdep]
  | ok parsed =>
    obtain ⟨kind, level⟩ := parsed
    by_cases hread : kind = .readAfterWrite
    · simp [dependence, Dependence.ofRecord, hkind, hread, bind, Except.bind, pure, Except.pure,
        Dependence.isKind, eq_comm]
    · simp [dependence, Dependence.ofRecord, hkind, hread, bind, Except.bind, pure, Except.pure, Dependence.isKind]

theorem read?_eq_none {d : DependenceRecord} (h : ¬ IsRead d.type) : d.read? = none := by
  rw [Option.eq_none_iff_forall_ne_some]
  exact fun r hr => h (read?_eq_some_iff.1 hr).1

variable (sink type source : String)

theorem ofPair_eq :
    ofPair sink type source =
      match originOf? source with
      | some (line, var) => ⟨sink, line, type, (variableAndRegion var).1, (variableAndRegion var).2⟩
      | none => ⟨sink, source, type, "", ""⟩ := by
  unfold ofPair originOf?
  rcases split "|" source with _ | ⟨line, _ | ⟨var, parts⟩⟩ <;> rfl

theorem sink_ofPair : (ofPair sink type source).sink = sink := by
  rw [ofPair_eq]
  split <;> rfl

theorem type_ofPair : (ofPair sink type source).type = type := by
  rw [ofPair_eq]
  split <;> rfl

theorem replace_variableAndRegion_iff (var : String) :
    replace ".addr" "" (variableAndRegion var).1 = replace ".addr" "" var ↔ '(' ∉ var.toList := by
  have hbracket : "(".toList = ['('] := rfl
  have hmem : ∀ s, '(' ∈ (replace ".addr" "" s).toList ↔ '(' ∈ s.toList :=
    mem_replace_iff (by decide) (by decide)
  rcases exists_of_split hbracket var with ⟨hfree, hparts⟩ | ⟨name, rest, hvar, hname, hparts⟩
  · have hplain : variableAndRegion var = (var, "") := by simp [variableAndRegion, hparts]
    simp [hplain, hfree]
  · obtain ⟨part, parts, hrest⟩ := exists_cons_of_ne_nil (split_ne_nil "(" rest)
    have hnamed : (variableAndRegion var).1 = name := by simp [variableAndRegion, hparts, hrest]
    have hopen : '(' ∈ var.toList := by simp [hvar]
    rw [hnamed]
    refine iff_of_false (fun heq => hname ?_) (fun hfree => hfree hopen)
    rw [← hmem, heq, hmem]
    exact hopen

end DependenceRecord

/-- A pair that is written as a read, from a source that names a variable and no region. -/
def PlainRead (p : String × String) : Prop :=
  p.1 = "RAW" ∧ ∃ line var, originOf? p.2 = some (line, var) ∧ '(' ∉ var.toList

theorem isRead_raw : IsRead "RAW" := ⟨none, rfl⟩

theorem Flows.plainRead?_eq_none (h : p.1 ≠ "RAW") : plainRead? p = none := by
  have hsource : source? p = none := if_neg h
  rw [plainRead?, hsource]
  rfl

theorem read?_ofPair (h : IsRead p.1) (sink : String) :
    (ofPair sink p.1 p.2).read? = some ((ofPair sink p.1 p.2).source,
      replace ".addr" "" (ofPair sink p.1 p.2).var) :=
  read?_eq_some_iff.2 ⟨(type_ofPair sink p.1 p.2).symm ▸ h, rfl⟩

theorem Flows.plainRead?_eq_read?_iff (sink : String) (p : String × String) :
    plainRead? p = (ofPair sink p.1 p.2).read? ↔ (IsRead p.1 → PlainRead p) := by
  by_cases hread : IsRead p.1
  · rw [read?_ofPair hread]
    simp only [hread, true_imp_iff]
    by_cases hraw : p.1 = "RAW"
    · have hsource : source? p = some p.2 := if_pos hraw
      unfold PlainRead
      rw [plainRead?, hsource, Option.bind_some, ofPair_eq]
      cases originOf? p.2 with
      | none => simp
      | some origin =>
        obtain ⟨line, var⟩ := origin
        have hname := replace_variableAndRegion_iff var
        simp [hraw, ← hname, eq_comm]
    · rw [plainRead?_eq_none hraw]
      exact iff_of_false (by simp) fun hplain => hraw hplain.1
  · have hraw : p.1 ≠ "RAW" := fun hraw => hread (hraw ▸ isRead_raw)
    have htype := type_ofPair sink p.1 p.2
    rw [plainRead?_eq_none hraw, read?_eq_none (htype.symm ▸ hread)]
    simp [hread]

/-! ## The two readings -/

theorem filterMap_eq_filterMap_iff {α β : Type} {f g : α → Option β} {xs : List α}
    (h : ∀ x ∈ xs, (f x).isSome → (g x).isSome) : xs.filterMap f = xs.filterMap g ↔ ∀ x ∈ xs, f x = g x := by
  induction xs with
  | nil => simp
  | cons x xs ih =>
    have hrest := fun y hy => h y (mem_cons_of_mem x hy)
    rw [forall_mem_cons, ← ih hrest]
    cases hg : g x with
    | none =>
      have hf : f x = none := by
        rw [← Option.not_isSome_iff_eq_none]
        exact fun hsome => absurd (h x (by simp) hsome) (by simp [hg])
      simp [hf, hg]
    | some b =>
      cases hf : f x with
      | none =>
        -- The rest would have to give one more element than it can.
        have hle : (xs.filterMap f).length ≤ (xs.filterMap g).length := by
          rw [length_filterMap_eq_countP, length_filterMap_eq_countP]
          exact countP_mono_left hrest
        rw [filterMap_cons_none hf, filterMap_cons_some hg]
        refine iff_of_false (fun heq => ?_) (by simp)
        have := congrArg length heq
        rw [length_cons] at this
        omega
      | some a => simp [hf, hg]

namespace DependenceFile

/-- The lines and variables that the records of a file say a line reads from. -/
def reads (f : DependenceFile) (sink : String) : List (String × String) :=
  (f.dependences.filter (·.sink == sink)).filterMap (·.read?)

def recordsOf (l : Listing) : List DependenceRecord := l.pairs.map fun p => .ofPair l.sink p.1 p.2

theorem foldlM_addLine_listing (f : DependenceFile) (ls : List Listing) :
    ((ls.map text).map (· ++ "\n")).foldlM addLine f =
      .ok { f with dependences := f.dependences ++ ls.flatMap recordsOf } := by
  induction ls generalizing f with
  | nil => simp [pure, Except.pure]
  | cons l ls ih =>
    rw [map_cons, map_cons, foldlM_cons, addLine_of_words l.ne_nil l.words_text]
    exact (ih _).trans (by simp [recordsOf])

theorem parse_written (ls : List Listing) :
    parse (Text.feedLines (written ls)) = .ok { dependences := ls.flatMap recordsOf } := by
  rw [feedLines_written, parse, foldlM_addLine_listing]
  rfl

theorem reads_written (ls : List Listing) (sink : String) :
    reads { dependences := ls.flatMap recordsOf } sink =
      (pairsOn ls sink).filterMap fun p => (ofPair sink p.1 p.2).read? := by
  unfold reads
  induction ls with
  | nil => rfl
  | cons l ls ih =>
    rw [pairsOn_cons, flatMap_cons, filter_append, filterMap_append, filterMap_append, ih]
    have hsinks : ∀ d ∈ recordsOf l, d.sink = l.sink := by
      intro d hd
      obtain ⟨p, -, rfl⟩ := mem_map.1 hd
      exact sink_ofPair _ _ _
    split
    · next hsink =>
      obtain rfl := beq_iff_eq.1 hsink
      rw [filter_eq_self.2 fun d hd => beq_iff_eq.2 (hsinks d hd), recordsOf, filterMap_map,
        Function.comp_def]
    · next hsink =>
      rw [filter_eq_nil_iff.2 fun d hd => hsinks d hd ▸ hsink]
      rfl

end DependenceFile

/-- The two readings of a file. The recorded dependences are always read. The flows are read exactly
if every plainly written read names a variable. What they list for a line are the reads that are
recorded for it exactly if each of these is written plainly: without an iteration level, and from a
source that names a variable and no region. -/
theorem Flows.getD_eq_reads_iff (ls : List Listing) :
    ∃ file, DependenceFile.parse (feedLines (Listing.written ls)) = .ok file ∧
      ((∃ flows, Flows.parse (Listing.written ls) = .ok flows) ↔ ∀ l ∈ ls, NamesReads l) ∧
      ∀ flows, Flows.parse (Listing.written ls) = .ok flows → ∀ sink,
        (flows.getD sink [] = file.reads sink ↔ ∀ p ∈ Listing.pairsOn ls sink, IsRead p.1 → PlainRead p) := by
  have hparse : ∀ flows, Flows.parse (Listing.written ls) = .ok flows ↔
      (∀ l ∈ ls, NamesReads l) ∧ flows = ls.foldl note ∅ := by
    intro flows
    rw [Flows.parse, Listing.feedLines_written, foldlM_addLine_text]
  refine ⟨_, DependenceFile.parse_written ls, ?_, ?_⟩
  · constructor
    · rintro ⟨flows, h⟩
      exact ((hparse flows).1 h).1
    · intro h
      exact ⟨_, (hparse _).2 ⟨h, rfl⟩⟩
  · intro flows h sink
    obtain ⟨-, rfl⟩ := (hparse flows).1 h
    have hempty : (∅ : Flows).getD sink [] = [] := rfl
    rw [getD_foldl_note, hempty, nil_append, DependenceFile.reads_written, filterMap_eq_filterMap_iff]
    · exact forall₂_congr fun p _ => plainRead?_eq_read?_iff sink p
    · intro p _ hplain
      have hraw : p.1 = "RAW" := by
        by_contra hraw
        rw [plainRead?_eq_none hraw] at hplain
        cases hplain
      rw [read?_ofPair (hraw ▸ isRead_raw)]
      rfl

/-- A line that lists a plainly written read, and a write after a read. -/
def plainListing : Listing where
  sink := "1:24"
  gap := 1
  pairs := [("RAW", "1:3|x.addr"), ("WAR", "1:9|y(m)")]
  isWord_sink := by decide
  ne_nil := cons_ne_nil _ _
  isWord_type := by decide
  isWord_source := by decide

theorem Flows.getD_eq_reads_plainListing :
    ∃ file flows, DependenceFile.parse (feedLines (Listing.written [plainListing])) = .ok file ∧
      Flows.parse (Listing.written [plainListing]) = .ok flows ∧ flows.getD "1:24" [] = file.reads "1:24" := by
  obtain ⟨file, hfile, hread, hagree⟩ := Flows.getD_eq_reads_iff [plainListing]
  have hnames : ∀ l ∈ [plainListing], NamesReads l := by
    intro l hl
    rw [mem_singleton.1 hl]
    unfold NamesReads
    decide
  obtain ⟨flows, hflows⟩ := hread.2 hnames
  refine ⟨file, flows, hfile, hflows, (hagree flows hflows "1:24").2 ?_⟩
  intro p hp hkind
  have hp : p ∈ plainListing.pairs := hp
  simp only [plainListing, mem_cons, not_mem_nil, or_false] at hp
  rcases hp with rfl | rfl
  · exact ⟨rfl, "1:3", "x.addr", rfl, by decide⟩
  · obtain ⟨level, hlevel⟩ := hkind
    cases hlevel

/-- Lines that list one read each: inside of an iteration, and of a region. -/
def unseenListings : List Listing :=
  [{ sink := "1:2", gap := 0, pairs := [("RAW_II_0", "1:1|x(m)")], isWord_sink := by decide
     ne_nil := cons_ne_nil _ _, isWord_type := by decide, isWord_source := by decide },
   { sink := "1:3", gap := 0, pairs := [("RAW", "1:1|x(m)")], isWord_sink := by decide
     ne_nil := cons_ne_nil _ _, isWord_type := by decide, isWord_source := by decide }]

/-- The read inside of an iteration is not listed, and that of a region is listed under another
name. -/
theorem Flows.getD_ne_reads_unseenListings :
    ∃ file flows, DependenceFile.parse (feedLines (Listing.written unseenListings)) = .ok file ∧
      Flows.parse (Listing.written unseenListings) = .ok flows ∧
      file.reads "1:2" = [("1:1", "x")] ∧ flows.getD "1:2" [] = [] ∧
      file.reads "1:3" = [("1:1", "x")] ∧ flows.getD "1:3" [] = [("1:1", "x(m)")] := by
  refine ⟨_, _, rfl, rfl, ?_⟩
  decide +kernel

end ParallelPatterns
