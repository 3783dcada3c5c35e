import Mathlib.Algebra.GroupWithZero.Nat
import ParallelPatterns.Directive.CheckCommand
import ParallelPatterns.Directive.Generate
import ParallelPatterns.Proofs.SourceLayout
import ParallelPatterns.Proofs.Table

/-!
# What becomes of the directives of patterns

The directives of patterns are attempts to change files. A directive stays as it is, or as a
comment, or it is lost, as the check of the changed source answers; `Ledger` says for attempts one
after another what is asked and what the answers lead to. `generateSources_eq_ok` says that the
texts of files are made by a ledger of the directives of all patterns: each attempt leaves its line
once, unless it is lost. It is lost if the check rejects the comment as well.
-/

namespace ParallelPatterns

open List Request

variable {as : List Attempt} {s s' : Generation}

open SourceBuffer Editing

/-! ## Files with notes -/

/-- The text of a file with notes. -/
def sourceWith (text : String) (notes : List Note) : String :=
  String.join ((layout (Text.feedLines text) notes).map (·.closed.content))

def Written (file : Int) (text : String) (notes : List Note) (b : SourceBuffer) : Prop :=
  ∃ qs, (perform qs (ofText file text)).2 = b ∧
    (Request.lasting qs (perform qs (ofText file text)).1).flatMap (Request.notes file) = notes

namespace Written

variable {file : Int} {text : String} {notes : List Note} {b b' : SourceBuffer}

theorem nil (file : Int) (text : String) : Written file text [] (ofText file text) := ⟨[], rfl, rfl⟩

variable (h : Written file text notes b)
include h

theorem file_eq : b.file = file := by
  obtain ⟨qs, rfl, -⟩ := h
  have hclose := congrArg SourceBuffer.file (close_perform qs (ofText file text))
  exact hclose

theorem close_text : b.close.text = sourceWith text notes := by
  obtain ⟨qs, rfl, rfl⟩ := h
  have hbare := map_bare_perform file text qs
  have htext : (perform qs (ofText file text)).2.close.text =
      String.join ((perform qs (ofText file text)).2.lines.map (·.closed.content)) := by
    simp [SourceBuffer.text, close, Function.comp_def]
  rw [htext, sourceWith, SourceLine.map_closed_content, hbare, ← SourceLine.map_closed_content]

theorem snoc {q : Request} {a : Result Insertion}
    (hrun : q.insertion.run.run b = (a, b')) (ha : wasUndone a = false) :
    Written file text (notes ++ q.notes file) b' := by
  obtain ⟨qs, rfl, rfl⟩ := h
  have hone : perform [q] (perform qs (ofText file text)).2 = ([a], b') := by rw [perform_cons, hrun]; rfl
  have hlast : lasting [q] [a] = [q] := by rw [lasting_cons, if_neg (by simp [ha])]; rfl
  refine ⟨qs ++ [q], ?_, ?_⟩
  · rw [perform_append, hone]
  · rw [perform_append, hone, lasting_append (length_perform qs _), hlast]
    simp

theorem insertion {q : Request} {i : Insertion} (hrun : q.insertion.run.run b = (.ok i, b')) :
    let new := notes ++ q.directive.notes file q.asComment
    q.Answers file (sourceWith text new) i.isKept ∧ (if i.isKept then Written file text new b' else b' = b) := by
  obtain rfl : b.file = file := h.file_eq
  obtain ⟨hresult, hanswer⟩ := answers_of_run_insertion hrun
  have hnotes := notes_of_result hresult
  rw [← hnotes]
  constructor
  · -- the check sees the file with the notes of this insertion
    have htry : { q with check := none }.insertion.run.run b =
      (.ok .kept, b.grow (q.course b.file b.nextRegion)) := by
      have hinsert := run_insert q.asComment q.parents none q.directive b
      unfold course at hresult
      simp only [run_add_and_addAll.1, hresult] at hinsert
      exact hinsert
    have hsource : (b.grow (q.course b.file b.nextRegion)).close.text = sourceWith text (notes ++ q.notes b.file) :=
      (h.snoc htry rfl).close_text
    rw [← hsource]
    exact hanswer
  · cases i with
    | kept => exact h.snoc hrun rfl
    | undone tried =>
      rcases run_insertion_cases q hrun with ⟨-, hb⟩ | ⟨hundone, -⟩
      · exact hb
      · cases hundone

end Written

/-! ## What becomes of directives -/

/-- What becomes of a directive. -/
inductive Fate where
  | asIs
  | asComment
  | lost
  deriving DecidableEq, Repr, Inhabited

/-- A directive that was to be inserted into a file, and what became of it. -/
structure Attempt where
  file : Int
  directive : Directive
  fate : Fate

namespace Attempt

/-- The notes that stay. -/
def notes (a : Attempt) : List Note :=
  match a.fate with
  | .asIs => a.directive.notes a.file false
  | .asComment => a.directive.notes a.file true
  | .lost => []

/-- How many answers there have been. -/
def answers (a : Attempt) : Nat :=
  match a.fate with
  | .asIs => 1
  | _ => 2

/-- The notes of attempts that stay in a file. -/
def notesIn (file : Int) (as : List Attempt) : List Note := (as.filter (·.file == file)).flatMap notes

/-- How many answers there have been to attempts. -/
def answersTo (as : List Attempt) : Nat := (as.map answers).sum

end Attempt

open Attempt

/-- Is this the answer to a directive in a file with notes, as it is or as a comment? It is asked
with a number. -/
def Answers (check : Option SourceCheck) (number : Nat) (path text : String) (file : Int)
    (notes : List Note) (d : Directive) (asComment accepted : Bool) : Prop :=
  match check with
  | none => accepted
  | some c =>
    if d.file = some file then c number path (sourceWith text (notes ++ d.notes file asComment)) = .ok accepted
    else accepted

/-- Do the answers decide the fate of an attempt at a file with notes? A directive that is rejected
is tried again as a comment, and lost if the comment is rejected too. -/
def Attempt.Decided (check : Option SourceCheck) (number : Nat) (path text : String)
    (notes : List Note) (a : Attempt) : Prop :=
  let answer (n : Nat) := Answers check n path text a.file notes a.directive
  match a.fate with
  | .asIs => answer number false true
  | .asComment => answer number false false ∧ answer (number + 1) true true
  | .lost => answer number false false ∧ answer (number + 1) true false

/-- Attempts one after another, each at its file with the notes that have stayed until then. -/
inductive Ledger (files : Files) (paths : Table Int String) (check : Option SourceCheck) : List Attempt → Prop where
  | nil : Ledger files paths check []
  | snoc {as : List Attempt} {a : Attempt} {path text : String} (earlier : Ledger files paths check as)
      (hpath : paths.get? a.file = some path) (htext : files.read path = .ok text)
      (hdecided : a.Decided check (Attempt.answersTo as) path text (Attempt.notesIn a.file as)) :
      Ledger files paths check (as ++ [a])

namespace Attempt

theorem Decided.lost_iff {check : Option SourceCheck} {number : Nat} {path text : String}
    {notes : List Note} {a : Attempt} (h : a.Decided check number path text notes)
    (hfile : a.directive.file = some a.file) : a.fate = .lost ↔ ∃ c, check = some c ∧
      c number path (sourceWith text (notes ++ a.directive.notes a.file false)) = .ok false ∧
      c (number + 1) path (sourceWith text (notes ++ a.directive.notes a.file true)) = .ok false := by
  unfold Decided Answers at h
  cases check with
  | none => cases hfate : a.fate <;> simp [hfate] at h ⊢
  | some c =>
    simp only [if_pos hfile] at h
    cases hfate : a.fate <;> simp only [hfate] at h <;> simp [h]

end Attempt

theorem Ledger.decided {files : Files} {paths : Table Int String} {check : Option SourceCheck}
    {later : List Attempt} {a : Attempt} (h : Ledger files paths check (as ++ a :: later)) :
    ∃ path text, paths.get? a.file = some path ∧ files.read path = .ok text ∧
      a.Decided check (answersTo as) path text (notesIn a.file as) := by
  generalize hall : as ++ a :: later = all at h
  induction h generalizing later with
  | nil => simp at hall
  | @snoc as' a' path text earlier hpath htext hdecided ih =>
    -- it is the last attempt, or one of the earlier ledger
    rcases eq_nil_or_concat later with rfl | ⟨later, last, rfl⟩
    · obtain ⟨rfl, hlast⟩ := append_inj' hall rfl
      cases hlast
      exact ⟨path, text, hpath, htext, hdecided⟩
    · rw [concat_eq_append, ← cons_append, ← append_assoc] at hall
      exact ih (append_inj' hall rfl).1

namespace Generation

def request (check : Option SourceCheck) (path : String) (d : Directive) (number : Nat)
    (asComment : Bool) : Request :=
  { directive := d, asComment, check := check.map fun c => c number path }

theorem insertInto_eq (check : Option SourceCheck) (path : String) (d : Directive) (s : Generation)
    (b : SourceBuffer) : insertInto check path d s b =
      match (request check path d s.checks false).insertion.run.run b with
      | (.error e, _) => .error e
      | (.ok .kept, b) => .ok (b, { s with checks := s.checks + 1 })
      | (.ok (.undone _), b) =>
        match (request check path d (s.checks + 1) true).insertion.run.run b with
        | (.error e, _) => .error e
        | (.ok _, b) => .ok (b, { s with checks := s.checks + 2 }) := by
  unfold insertInto request insertion
  simp only
  cases (Editing.insert (check.map fun c => c s.checks path) false [] d).run.run b with
  | mk r b₁ =>
    cases r with
    | error e => rfl
    | ok i =>
      cases i with
      | kept => rfl
      | undone tried =>
        simp only
        cases (Editing.insert (check.map fun c => c (s.checks + 1) path) true [] d).run.run b₁ with
        | mk r b₂ => cases r <;> rfl

theorem insertInto_eq_ok {check : Option SourceCheck} {path : String} {d : Directive}
    {b b' : SourceBuffer} {file : Int} {text : String} {notes : List Note}
    (hb : Written file text notes b) (h : insertInto check path d s b = .ok (b', s')) :
    ∃ fate, Attempt.Decided check s.checks path text notes ⟨file, d, fate⟩ ∧
      Written file text (notes ++ Attempt.notes ⟨file, d, fate⟩) b' ∧
      s' = { s with checks := s.checks + answers ⟨file, d, fate⟩ } := by
  have hanswers : ∀ {n asComment accepted},
      (request check path d n asComment).Answers file (sourceWith text (notes ++ d.notes file asComment)) accepted →
        Answers check n path text file notes d asComment accepted := by
    intro n asComment accepted hanswer
    cases check <;> exact hanswer
  rw [insertInto_eq] at h
  split at h
  case h_1 => cases h
  case h_2 hrun =>
    cases h
    obtain ⟨hfirst, hwritten⟩ := hb.insertion hrun
    exact ⟨.asIs, hanswers hfirst, hwritten, rfl⟩
  case h_3 tried b₁ hrun =>
    obtain ⟨hfirst, hsame⟩ := hb.insertion hrun
    obtain rfl : b₁ = b := hsame
    split at h
    case h_1 => cases h
    case h_2 i b₂ hrun' =>
      cases h
      obtain ⟨hsecond, hwritten⟩ := hb.insertion hrun'
      cases i with
      | kept => exact ⟨.asComment, ⟨hanswers hfirst, hanswers hsecond⟩, hwritten, rfl⟩
      | undone tried' =>
        obtain rfl : b' = b₁ := hwritten
        exact ⟨.lost, ⟨hanswers hfirst, hanswers hsecond⟩, by simpa [Attempt.notes] using hb, rfl⟩

end Generation

namespace Attempt

theorem notesIn_of_ne {file other : Int} (hne : file ≠ other) (has : ∀ a ∈ as, a.file = file) :
    notesIn other as = [] := by
  have hnone : as.filter (·.file == other) = [] := by
    rw [filter_eq_nil_iff]
    intro a ha
    simpa [has a ha] using hne
  rw [notesIn, hnone, flatMap_nil]

end Attempt

namespace Generation

variable {files : Files} {paths : Table Int String} {check : Option SourceCheck}

theorem foldlM_insertInto_eq_ok {file : Int} {path text : String}
    (hpath : paths.get? file = some path) (htext : files.read path = .ok text) {ds : List Directive}
    {b b' : SourceBuffer} (hledger : Ledger files paths check as)
    (hchecks : s.checks = answersTo as) (hb : Written file text (notesIn file as) b)
    (h : ds.foldlM (fun (b, s) d => insertInto check path d s b) (b, s) = .ok (b', s')) :
    ∃ new : List Attempt, new.map (fun a => (a.file, a.directive)) = ds.map (file, ·) ∧
      Ledger files paths check (as ++ new) ∧ s'.checks = answersTo (as ++ new) ∧
      Written file text (notesIn file (as ++ new)) b' ∧ s'.buffers = s.buffers := by
  induction ds generalizing as s b with
  | nil =>
    cases h
    exact ⟨[], rfl, by simpa using hledger, by simpa using hchecks, by simpa using hb, rfl⟩
  | cons d ds ih =>
    obtain ⟨⟨b₁, s₁⟩, hfirst, hrest⟩ := bind_eq_ok_iff.1 h
    obtain ⟨fate, hdecided, hwritten, rfl⟩ := insertInto_eq_ok hb hfirst
    rw [hchecks] at hdecided hrest
    have hledger' := hledger.snoc hpath htext hdecided
    have hchecks' : answersTo as + (⟨file, d, fate⟩ : Attempt).answers =
        answersTo (as ++ [⟨file, d, fate⟩]) := by
      simp [answersTo]
    have hnotes : notesIn file (as ++ [⟨file, d, fate⟩]) =
        notesIn file as ++ (⟨file, d, fate⟩ : Attempt).notes := by
      simp [notesIn]
    rw [← hnotes] at hwritten
    obtain ⟨new, hnew, hlast, hanswers, hfinal, hbuffers⟩ := ih hledger' hchecks' hwritten hrest
    rw [append_assoc] at hlast hanswers hfinal
    exact ⟨⟨file, d, fate⟩ :: new, by rw [map_cons, hnew, map_cons], hlast, hanswers, hfinal, hbuffers⟩

/-- What a state of the generation is after attempts: the buffer of each file has the notes of the
attempts at it, and a file without a buffer has none. -/
structure Records (files : Files) (paths : Table Int String) (check : Option SourceCheck)
    (as : List Attempt) (s : Generation) : Prop where
  ledger : Ledger files paths check as
  checks_eq : s.checks = Attempt.answersTo as
  written : ∀ file b, s.buffers.get? file = some b → ∃ path text, paths.get? file = some path ∧
    files.read path = .ok text ∧ Written file text (Attempt.notesIn file as) b
  untouched : ∀ file, s.buffers.get? file = none → Attempt.notesIn file as = []

theorem records_nil : Records files paths check [] {} where
  ledger := .nil
  checks_eq := rfl
  written file b h := by cases h
  untouched _ _ := rfl

theorem addPattern_eq_ok {p : PatternRecord} (h : addPattern files paths check s p = .ok s') :
    ∃ path b ds b' s₁, paths.get? p.file = some path ∧
      (s.buffers.get? p.file = some b ∨
        s.buffers.get? p.file = none ∧ ∃ text, files.read path = .ok text ∧ b = ofText p.file text) ∧
      p.directives = .ok ds ∧ ds.foldlM (fun (b, s) d => insertInto check path d s b) (b, s) = .ok (b', s₁) ∧
      s' = { s₁ with buffers := s₁.buffers.insert p.file b' } := by
  obtain ⟨path, hpath, h⟩ := bind_eq_ok_iff.1 h
  have hpath := getDM_eq_ok_iff.1 hpath
  cases hbuffer : s.buffers.get? p.file with
  | some b =>
    simp only [hbuffer, pure_bind] at h
    obtain ⟨ds, hds, h⟩ := bind_eq_ok_iff.1 h
    obtain ⟨⟨b', s₁⟩, hfold, h⟩ := bind_eq_ok_iff.1 h
    cases h
    exact ⟨path, b, ds, b', s₁, hpath, .inl rfl, hds, hfold, rfl⟩
  | none =>
    simp only [hbuffer, pure_bind] at h
    obtain ⟨text, htext, h⟩ := bind_eq_ok_iff.1 h
    obtain ⟨ds, hds, h⟩ := bind_eq_ok_iff.1 h
    obtain ⟨⟨b', s₁⟩, hfold, h⟩ := bind_eq_ok_iff.1 h
    cases h
    exact ⟨path, ofText p.file text, ds, b', s₁, hpath, .inr ⟨rfl, text, htext, rfl⟩, hds, hfold, rfl⟩

theorem Records.addPattern {p : PatternRecord}
    (hs : Records files paths check as s) (h : addPattern files paths check s p = .ok s') :
    ∃ (ds : List Directive) (new : List Attempt), p.directives = .ok ds ∧
      new.map (fun a => (a.file, a.directive)) = ds.map (p.file, ·) ∧ Records files paths check (as ++ new) s' ∧
      ∀ file, (s'.buffers.get? file).isSome = ((s.buffers.get? file).isSome || p.file == file) := by
  obtain ⟨path, b, ds, b', s₁, hpath, hbuffer, hds, hfold, rfl⟩ := addPattern_eq_ok h
  -- a file is read only for its first pattern, when nothing has been left in it
  have hfirst : ∃ text, files.read path = .ok text ∧ Written p.file text (notesIn p.file as) b := by
    rcases hbuffer with hbuffer | ⟨hbuffer, text, htext, rfl⟩
    · obtain ⟨path', text, hpath', htext, hwritten⟩ := hs.written p.file b hbuffer
      rw [hpath] at hpath'
      cases hpath'
      exact ⟨text, htext, hwritten⟩
    · rw [hs.untouched p.file hbuffer]
      exact ⟨text, htext, .nil p.file text⟩
  obtain ⟨text, htext, hwritten⟩ := hfirst
  obtain ⟨new, hnew, hledger, hchecks, hfinal, hbuffers⟩ :=
    foldlM_insertInto_eq_ok hpath htext hs.ledger hs.checks_eq hwritten hfold
  have hfiles : ∀ a ∈ new, a.file = p.file := by
    intro a ha
    have hmem : (a.file, a.directive) ∈ ds.map (p.file, ·) := hnew ▸ mem_map_of_mem ha
    obtain ⟨d, -, heq⟩ := mem_map.1 hmem
    exact (Prod.ext_iff.1 heq).1.symm
  have hother : ∀ file, p.file ≠ file → notesIn file (as ++ new) = notesIn file as := by
    intro file hne
    have hnone := notesIn_of_ne hne hfiles
    unfold notesIn at hnone ⊢
    rw [filter_append, flatMap_append, hnone, append_nil]
  refine ⟨ds, new, hds, hnew, ⟨hledger, hchecks, ?_, ?_⟩, ?_⟩
  · intro file b₂ hget
    rw [hbuffers, Table.get?_insert] at hget
    split at hget
    case isTrue hfile =>
      obtain rfl : p.file = file := by simpa using hfile
      cases hget
      exact ⟨path, text, hpath, htext, hfinal⟩
    case isFalse hfile =>
      rw [hother file (by simpa using hfile)]
      exact hs.written file b₂ hget
  · intro file hget
    rw [hbuffers, Table.get?_insert] at hget
    split at hget
    case isTrue => cases hget
    case isFalse hfile =>
      rw [hother file (by simpa using hfile)]
      exact hs.untouched file hget
  · intro file
    rw [hbuffers, Table.get?_insert]
    cases hfile : p.file == file <;> simp

theorem Records.foldlM {ps : List PatternRecord}
    (hs : Records files paths check as s) (h : ps.foldlM (Generation.addPattern files paths check) s = .ok s') :
    ∃ (dss : List (List Directive)) (new : List Attempt), ps.mapM (·.directives) = .ok dss ∧
      new.map (fun a => (a.file, a.directive)) = (ps.zip dss).flatMap (fun (p, ds) => ds.map (p.file, ·)) ∧
      Records files paths check (as ++ new) s' ∧
      ∀ file, (s'.buffers.get? file).isSome = ((s.buffers.get? file).isSome || ps.any (·.file == file)) := by
  induction ps generalizing as s with
  | nil =>
    cases h
    exact ⟨[], [], rfl, rfl, by simpa using hs, by simp⟩
  | cons p ps ih =>
    obtain ⟨s₁, hfirst, hrest⟩ := bind_eq_ok_iff.1 h
    obtain ⟨ds, new, hds, hnew, hs₁, hbuffers⟩ := hs.addPattern hfirst
    obtain ⟨dss, new', hdss, hnew', hs', hbuffers'⟩ := ih hs₁ hrest
    refine ⟨ds :: dss, new ++ new', ?_, ?_, ?_, ?_⟩
    · rw [mapM_cons, hds, hdss]
      rfl
    · rw [map_append, hnew, hnew', zip_cons_cons, flatMap_cons]
    · rw [← append_assoc]
      exact hs'
    · intro file
      rw [hbuffers', hbuffers, any_cons, Bool.or_assoc]

end Generation

namespace Attempt

/-- The lines that an attempt leaves in a file with so many lines. -/
def linesIn (count : Nat) (a : Attempt) : List SourceLine :=
  (a.notes.filter (·.directive.standsIn count)).map (·.plain)

end Attempt

/-- The texts of the files that patterns lie in. They are made by attempts, one for each directive
of the patterns in their order: the text of a file has its own lines and the lines that the attempts
at it leave. An attempt at a line of the file leaves the line of its directive once, as it is or as
a comment, unless it is lost. It is lost exactly if the check rejects both the source with the
directive and the source with the comment. -/
theorem generateSources_eq_ok {files : Files} {paths : Table Int String}
    {check : Option SourceCheck} {texts : Table String (List String)} {result : Table Int String}
    (h : generateSources files paths check texts = .ok result) :
    ∃ patterns directives attempts,
      PatternRecord.ofTexts texts = .ok patterns ∧ patterns.mapM (·.directives) = .ok directives ∧
      attempts.map (fun a => (a.file, a.directive)) =
        (patterns.zip directives).flatMap (fun (p, ds) => ds.map (p.file, ·)) ∧
      Ledger files paths check attempts ∧
      (∀ file, (result.get? file).isSome = patterns.any (·.file == file)) ∧
      ∀ file new, result.get? file = some new → ∃ path text ls,
        paths.get? file = some path ∧ files.read path = .ok text ∧ new = String.join (ls.map (·.closed.content)) ∧
        ls = layout (Text.feedLines text) (Attempt.notesIn file attempts) ∧
        ls.Perm ((ofText file text).lines ++
          (attempts.filter (·.file == file)).flatMap (Attempt.linesIn (Text.feedLines text).length)) ∧
        ∀ as a later, attempts = as ++ a :: later → a.file = file → a.directive.file = some file →
          a.directive.standsIn (Text.feedLines text).length = true →
            let changed asComment := sourceWith text (Attempt.notesIn file as ++ a.directive.notes file asComment)
            (a.fate = .lost ↔ ∃ c, check = some c ∧ c (Attempt.answersTo as) path (changed false) = .ok false ∧
              c (Attempt.answersTo as + 1) path (changed true) = .ok false) ∧
            (a.fate = .lost → a.linesIn (Text.feedLines text).length = []) ∧
            (a.fate ≠ .lost → ∃ below, a.linesIn (Text.feedLines text).length =
              (⟨a.directive, a.fate = .asComment⟩ : Note).plain :: below) := by
  obtain ⟨patterns, hpatterns, h⟩ := bind_eq_ok_iff.1 h
  obtain ⟨s, hfold, h⟩ := bind_eq_ok_iff.1 h
  cases h
  obtain ⟨directives, attempts, hdirectives, hattempts, hrecords, hbuffers⟩ := Generation.records_nil.foldlM hfold
  refine ⟨patterns, directives, attempts, hpatterns, hdirectives, hattempts, hrecords.ledger, ?_, ?_⟩
  · intro file
    rw [Table.get?_map, Option.isSome_map, hbuffers]
    rfl
  · intro file new hnew
    rw [Table.get?_map, Option.map_eq_some_iff] at hnew
    obtain ⟨b, hb, rfl⟩ := hnew
    obtain ⟨path, text, hpath, htext, hwritten⟩ := hrecords.written file b hb
    refine ⟨path, text, _, hpath, htext, hwritten.close_text, rfl, ?_, ?_⟩
    · refine (layout_perm file text _).trans (.of_eq ?_)
      simp only [Attempt.notesIn, filter_flatMap, map_flatMap]
      rfl
    · rintro as a later hsplit rfl hfile hstands
      have hledger := hrecords.ledger
      rw [hsplit] at hledger
      obtain ⟨path', text', hpath', htext', hdecided⟩ := hledger.decided
      obtain rfl : path = path' := Option.some.inj (hpath.symm.trans hpath')
      obtain rfl : text = text' := Except.ok.inj (htext.symm.trans htext')
      refine ⟨hdecided.lost_iff hfile, ?_⟩
      unfold Attempt.linesIn Attempt.notes
      cases a.fate <;> simp [Directive.notes, Directive.nodes_eq, hfile, hstands]

/-- A file with a loop. -/
def loopFile : Files := { texts := .ofList [("main.c", "for (;;)\n  x();\n")] }

/-- The loop as a pattern without dependences. -/
def loopPattern : Table String (List String) :=
  .ofList [("do_all", ["\x7b\"start_line\": \"1:1\", \"end_line\": \"1:2\", \"first_private\": [], " ++
    "\"private\": [], \"last_private\": [], \"shared\": [], \"reduction\": []\x7d"])]

/-- The directive of a loop that is rejected the first time stands before the loop as a comment. -/
theorem generateSources_eq_ok_comment :
    let check : SourceCheck := fun n _ _ => .ok (n == 1)
    ∃ result attempts, generateSources loopFile (.ofList [(1, "main.c")]) (some check) loopPattern = .ok result ∧
      result.get? 1 = some "//<DiscoPoP-IGNORED> #pragma omp parallel for \nfor (;;)\n  x();\n" ∧
      Ledger loopFile (.ofList [(1, "main.c")]) (some check) attempts := by
  intro check
  have hget : (generateSources loopFile (.ofList [(1, "main.c")])
    (some check) loopPattern).toOption.bind (·.get? 1) =
      some "//<DiscoPoP-IGNORED> #pragma omp parallel for \nfor (;;)\n  x();\n" := by decide +kernel
  cases hrun : generateSources loopFile (.ofList [(1, "main.c")]) (some check) loopPattern with
  | error e =>
    rw [hrun] at hget
    cases hget
  | ok result =>
    rw [hrun] at hget
    obtain ⟨-, -, attempts, -, -, -, hledger, -⟩ := generateSources_eq_ok hrun
    exact ⟨result, attempts, rfl, hget, hledger⟩

/-- A directive is lost if the check rejects every source: then the file stays as it was. -/
theorem generateSources_rejected :
    (generateSources loopFile (.ofList [(1, "main.c")]) (some fun _ => acceptsSource loopFile (some "false"))
      loopPattern).toOption.bind (·.get? 1) = some "for (;;)\n  x();\n" := by
  decide +kernel

end ParallelPatterns
