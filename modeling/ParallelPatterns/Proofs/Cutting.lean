import ParallelPatterns.Proofs.Position

/-!
# Cutting what was put together

Texts that are put together from words, parts and lines are cut into the same words, parts and lines
again, as long as none of them holds what the cut is made at. Words are cut at blanks, parts at a
separator, lines behind line feeds. A whole number is read as it was written.
-/

namespace ParallelPatterns.Text

open List

variable {x c d : Char} {sep s : String} {ls : List String} {ds : List Char}

theorem mem_intercalate_iff {sep : List Char} (hx : x ∉ sep) (parts : List (List Char)) :
    x ∈ sep.intercalate parts ↔ ∃ part ∈ parts, x ∈ part := by
  induction parts with
  | nil => simp
  | cons part parts ih =>
    cases parts with
    | nil => simp
    | cons next parts =>
      rw [intercalate_cons_cons, mem_append, ih]
      simp [hx]

/-! ## Words -/

/-- A text that is a single word: it is not empty and holds no blank. -/
def IsWord (s : String) : Prop := s ≠ "" ∧ ∀ c ∈ s.toList, isBlank c = false

instance (s : String) : Decidable (IsWord s) :=
  @instDecidableAnd (s ≠ "") (∀ c ∈ s.toList, isBlank c = false) inferInstance (List.decidableBAll _ s.toList)

theorem IsWord.ne_nil (h : IsWord s) : s.toList ≠ [] :=
  fun hnil => h.1 (String.toList_eq_nil_iff.1 hnil)

theorem IsWord.notMem (h : IsWord s) (hc : isBlank c) : c ∉ s.toList :=
  fun hmem => Bool.false_ne_true ((h.2 c hmem).symm.trans hc)

variable {w l : List Char} {ws : List String} {t : String}

section Words

variable {p : Char → Bool}

theorem wordsGo_append (hw : ∀ c ∈ w, p c = false) (acc s : List Char) :
    wordsGo p acc (w ++ s) = wordsGo p (w.reverse ++ acc) s := by
  induction w generalizing acc with
  | nil => rfl
  | cons c w ih =>
    have hc : p c = false := hw c (by simp)
    rw [cons_append, wordsGo, hc, if_neg Bool.false_ne_true, ih fun d hd => hw d (by simp [hd])]
    simp

theorem wordsGo_word (hne : w ≠ []) (hw : ∀ c ∈ w, p c = false) (hc : p c) (s : List Char) :
    wordsGo p [] (w ++ c :: s) = w :: wordsGo p [] s := by
  rw [wordsGo_append hw, wordsGo, if_pos hc]
  simp [hne]

theorem wordsGo_replicate (hc : p c) (n : Nat) (s : List Char) :
    wordsGo p [] (replicate n c ++ s) = wordsGo p [] s := by
  induction n with
  | zero => rfl
  | succ n ih =>
    rw [replicate_succ, cons_append, wordsGo, if_pos hc]
    simpa using ih

theorem wordsGo_intercalate {ws : List (List Char)} (hws : ∀ w ∈ ws, w ≠ [] ∧ ∀ c ∈ w, p c = false)
    (hc : p c) (hd : p d) : wordsGo p [] ([c].intercalate ws ++ [d]) = ws := by
  induction ws with
  | nil => simp [wordsGo, hd]
  | cons w ws ih =>
    obtain ⟨hne, hplain⟩ := hws w (by simp)
    have hrest := ih fun v hv => hws v (by simp [hv])
    cases ws with
    | nil =>
      rw [intercalate_singleton, wordsGo_word hne hplain hd]
      rfl
    | cons v ws =>
      rw [intercalate_cons_cons, append_assoc, append_assoc]
      exact (wordsGo_word hne hplain hc _).trans (congrArg _ hrest)

end Words

theorem words_intercalate (hws : ∀ w ∈ ws, IsWord w) :
    words (" ".intercalate ws ++ "\n") = ws := by
  have hchars : ∀ w ∈ ws.map String.toList, w ≠ [] ∧ ∀ c ∈ w, isBlank c = false := by
    intro w hw
    obtain ⟨v, hv, rfl⟩ := mem_map.1 hw
    exact ⟨(hws v hv).ne_nil, (hws v hv).2⟩
  have hcut := wordsGo_intercalate hchars (c := ' ') (d := '\n') (by decide) (by decide)
  rw [words, String.toList_append, String.toList_intercalate]
  refine (congrArg (map String.ofList) hcut).trans ?_
  simp

theorem notMem_intercalate (hsep : c ∉ sep.toList) (hws : ∀ w ∈ ws, c ∉ w.toList) :
    c ∉ (sep.intercalate ws).toList := by
  rw [String.toList_intercalate, mem_intercalate_iff hsep]
  rintro ⟨part, hpart, hmem⟩
  obtain ⟨w, hw, rfl⟩ := mem_map.1 hpart
  exact hws w hw hmem

/-! ## Lines -/

theorem feedLinesGo_append (hl : '\n' ∉ l) (acc s : List Char) :
    feedLinesGo acc (l ++ '\n' :: s) = (acc.reverse ++ l ++ ['\n']) :: feedLinesGo [] s := by
  induction l generalizing acc with
  | nil => simp [feedLinesGo]
  | cons c l ih =>
    rw [mem_cons, not_or] at hl
    rw [cons_append, feedLinesGo, if_neg (Ne.symm hl.1), ih hl.2]
    simp

theorem toList_join_cons (l : String) (ls : List String) :
    (String.join ((l :: ls).map (· ++ "\n"))).toList =
      l.toList ++ '\n' :: (String.join (ls.map (· ++ "\n"))).toList := by
  simp [String.toList_join]

theorem feedLines_join (hls : ∀ l ∈ ls, '\n' ∉ l.toList) :
    feedLines (String.join (ls.map (· ++ "\n"))) = ls.map (· ++ "\n") := by
  unfold feedLines
  induction ls with
  | nil => rfl
  | cons l ls ih =>
    rw [toList_join_cons, feedLinesGo_append (hls l (by simp)), map_cons, ih fun m hm => hls m (by simp [hm])]
    simp

theorem plainLineEndsGo_eq_self {s : List Char} (hs : '\r' ∉ s) : plainLineEndsGo s = s := by
  fun_induction plainLineEndsGo s with
  | case1 => rfl
  | case2 cs ih => simp at hs
  | case3 cs hne ih => simp at hs
  | case4 c cs h₁ h₂ ih => rw [ih fun hmem => hs (by simp [hmem])]

theorem plainLineEnds_eq_self (hs : '\r' ∉ s.toList) : plainLineEnds s = s := by
  rw [plainLineEnds, plainLineEndsGo_eq_self hs, String.ofList_toList]

theorem notMem_join (hls : ∀ l ∈ ls, c ∉ l.toList) (hne : c ≠ '\n') :
    c ∉ (String.join (ls.map (· ++ "\n"))).toList := by
  rw [String.toList_join, mem_flatMap]
  rintro ⟨line, hline, hmem⟩
  obtain ⟨l, hl, rfl⟩ := mem_map.1 hline
  rcases mem_append.1 (String.toList_append ▸ hmem) with hmem | hmem
  · exact hls l hl hmem
  · exact hne (by simpa using hmem)

theorem linesGo_append (hl : ∀ c ∈ l, isLineEnd c = false) (acc s : List Char) :
    linesGo acc (l ++ '\n' :: s) = (acc.reverse ++ l) :: linesGo [] s := by
  induction l generalizing acc with
  | nil =>
    have hfeed : isLineEnd '\n' := by decide
    simp [linesGo, hfeed]
  | cons c l ih =>
    have hc : isLineEnd c = false := hl c (by simp)
    have hreturn : c ≠ '\r' := by
      rintro rfl
      exact absurd hc (by decide)
    rw [cons_append, linesGo.eq_3 _ _ _ fun _ heq _ => hreturn heq, if_neg (by simp [hc]),
      ih fun d hd => hl d (by simp [hd])]
    simp

theorem lines_join (hls : ∀ l ∈ ls, ∀ c ∈ l.toList, isLineEnd c = false) :
    lines (String.join (ls.map (· ++ "\n"))) = ls := by
  unfold lines
  induction ls with
  | nil => rfl
  | cons l ls ih =>
    rw [toList_join_cons, linesGo_append (hls l (by simp)), map_cons, ih fun m hm => hls m (by simp [hm])]
    simp

/-! ## Parts -/

theorem splitGo_singleton (c : Char) (acc s : List Char) :
    splitGo [c] 0 acc s = s.splitOnPPrepend (· == c) acc := by
  induction s generalizing acc with
  | nil => simp [splitGo]
  | cons d s ih =>
    rw [splitGo, splitOnPPrepend_cons_eq_if]
    by_cases hd : c = d
    · subst hd
      simp [ih]
    · simp [hd, Ne.symm hd, ih]

section

variable (hsep : sep.toList = [c])
include hsep

theorem split_eq_splitOn (s : String) : split sep s = (s.toList.splitOn c).map String.ofList := by
  rw [split, hsep, splitGo_singleton, splitOnPPrepend_nil_right, splitOn_eq_splitOnP]

theorem split_append (s t : String) : split sep (s ++ sep ++ t) = split sep s ++ split sep t := by
  simp [split_eq_splitOn hsep, hsep, splitOn_append_cons_self]

theorem split_eq_singleton (hs : c ∉ s.toList) : split sep s = [s] := by
  rw [split_eq_splitOn hsep, splitOn_eq_singleton hs]
  simp

theorem split_cons (hs : c ∉ s.toList) (t : String) : split sep (s ++ sep ++ t) = s :: split sep t := by
  rw [split_append hsep, split_eq_singleton hsep hs, singleton_append]

theorem split_intercalate {parts : List String}
    (hne : parts ≠ []) (hparts : ∀ part ∈ parts, c ∉ part.toList) : split sep (sep.intercalate parts) = parts := by
  have hcut : ([c].intercalate (parts.map String.toList)).splitOn c = parts.map String.toList :=
    splitOn_intercalate c (by simpa using hparts) (by simpa using hne)
  simp [split_eq_splitOn hsep, hsep, hcut]

theorem intercalate_split (s : String) : sep.intercalate (split sep s) = s := by
  have hlists : (split sep s).map String.toList = s.toList.splitOn c := by
    rw [split_eq_splitOn hsep]
    simp [Function.comp_def]
  rw [← String.toList_inj, String.toList_intercalate, hlists, hsep, intercalate_splitOn]

theorem split_times (n : Nat) (s : String) : split sep (times n sep ++ s) = replicate n "" ++ split sep s := by
  induction n with
  | zero => simp [times]
  | succ n ih =>
    have htimes : times (n + 1) sep ++ s = "" ++ sep ++ (times n sep ++ s) := by
      simp [times, replicate_succ, String.append_assoc]
    rw [htimes, split_cons hsep not_mem_nil, ih, replicate_succ, cons_append]

theorem exists_of_split (s : String) :
    (c ∉ s.toList ∧ split sep s = [s]) ∨
      ∃ first rest, s = first ++ sep ++ rest ∧ c ∉ first.toList ∧ split sep s = first :: split sep rest := by
  by_cases hc : c ∈ s.toList
  · obtain ⟨first, rest, hs, hfirst⟩ := eq_append_cons_of_mem hc
    have hparts : s = String.ofList first ++ sep ++ String.ofList rest := by
      rw [← String.toList_inj]
      simp [hs, hsep]
    have hfree : c ∉ (String.ofList first).toList := by rwa [String.toList_ofList]
    exact .inr ⟨String.ofList first, String.ofList rest, hparts, hfree, hparts ▸ split_cons hsep hfree _⟩
  · exact .inl ⟨hc, split_eq_singleton hsep hc⟩

theorem notMem_of_mem_split {s part : String} (h : part ∈ split sep s) : c ∉ part.toList := by
  rcases exists_of_split hsep s with ⟨hs, hparts⟩ | ⟨first, rest, hs, hfirst, hparts⟩
  · rw [hparts] at h
    rwa [mem_singleton.1 h]
  · rw [hparts] at h
    rcases mem_cons.1 h with rfl | h
    · exact hfirst
    · exact notMem_of_mem_split h
termination_by s.length
decreasing_by
  simp [hs, hsep, ← String.length_toList]
  omega

end

/-- What is passed over as long as no separator begins in it. -/
theorem splitGo_part {seps s : List Char} (h : ∀ v, v <:+ w → v ≠ [] → ¬seps <+: v ++ s)
    (acc : List Char) : splitGo seps 0 acc (w ++ s) = splitGo seps 0 (w.reverse ++ acc) s := by
  induction w generalizing acc with
  | nil => rfl
  | cons c w ih =>
    have hnot : ¬seps.isPrefixOf (c :: (w ++ s)) := by simpa using h (c :: w) suffix_rfl (cons_ne_nil c w)
    rw [cons_append, splitGo, if_neg hnot, ih fun v hv => h v (hv.trans (suffix_cons c w))]
    simp

theorem splitGo_append (hw : d ∉ w) (acc s : List Char) :
    splitGo (d :: ds) 0 acc (w ++ s) = splitGo (d :: ds) 0 (w.reverse ++ acc) s := by
  refine splitGo_part (fun v hv hne hstart => ?_) acc
  obtain ⟨c, v, rfl⟩ := exists_cons_of_ne_nil hne
  obtain ⟨rfl, -⟩ := cons_prefix_cons.1 hstart
  exact hw (hv.subset mem_cons_self)

theorem splitGo_skip (sep acc w s : List Char) : splitGo sep w.length acc (w ++ s) = splitGo sep 0 acc s := by
  induction w with
  | nil => rfl
  | cons c w ih => exact ih

theorem splitGo_of_not_infix {sep s : List Char} (h : ¬ sep <:+: s) (acc : List Char) :
    splitGo sep 0 acc s = [acc.reverse ++ s] := by
  have hpart := splitGo_part (fun v hv _ hstart => h ((append_nil v ▸ hstart).isInfix.trans hv.isInfix)) acc
  simpa [splitGo] using hpart

theorem split_once (hsep : sep.toList = d :: ds) (hs : d ∉ s.toList)
    (ht : ¬ sep.toList <:+: t.toList) : split sep (s ++ sep ++ t) = [s, t] := by
  rw [hsep] at ht
  rw [split, String.toList_append, String.toList_append, hsep, append_assoc, splitGo_append hs,
    cons_append, splitGo, length_cons, Nat.add_sub_cancel, splitGo_skip, splitGo_of_not_infix ht]
  simp

theorem exists_mem_splitGo_iff (hx : x ∉ d :: ds) (skip : Nat) (acc s : List Char) :
    (∃ part ∈ splitGo (d :: ds) skip acc s, x ∈ part) ↔ x ∈ acc ∨ x ∈ s.drop skip := by
  induction s generalizing skip acc with
  | nil => simp [splitGo]
  | cons c s ih =>
    cases skip with
    | succ n => exact ih n acc
    | zero =>
      rw [splitGo]
      by_cases hsep : (d :: ds).isPrefixOf (c :: s)
      · -- What is passed over is the rest of the separator, which does not hold the character.
        obtain ⟨t, ht⟩ := isPrefixOf_iff_prefix.1 hsep
        rw [cons_append] at ht
        obtain ⟨rfl, rfl⟩ := ht
        have hrest := ih ds.length []
        rw [mem_cons, not_or] at hx
        simp [hrest, hx.1, hx.2]
      · rw [if_neg hsep, ih]
        simp [or_assoc, or_left_comm]

theorem mem_replace_iff {old : String} (hne : old ≠ "") (hx : x ∉ old.toList) (s : String) :
    x ∈ (replace old "" s).toList ↔ x ∈ s.toList := by
  have hold : old.toList ≠ [] := fun hnil => hne (String.toList_eq_nil_iff.1 hnil)
  obtain ⟨d, ds, hds⟩ := exists_cons_of_ne_nil hold
  rw [hds] at hx
  rw [replace, String.toList_intercalate, String.toList_empty, mem_intercalate_iff not_mem_nil, split, hds]
  simpa using exists_mem_splitGo_iff hx 0 [] s.toList

theorem replace_feed {l : String} (hl : '\n' ∉ l.toList) : replace "\n" "" (l ++ "\n") = l := by
  have hfeed : "\n".toList = ['\n'] := rfl
  have hempty : split "\n" "" = [""] := split_eq_singleton hfeed not_mem_nil
  have hparts := split_cons hfeed hl ""
  rw [String.append_empty, hempty] at hparts
  simp [replace, hparts]

theorem has_iff_isInfix {pat : String} : has pat s ↔ pat.toList <:+: s.toList := by
  have hfind : ∀ (n : Nat) (cs : List Char), (findGo pat.toList n cs).isSome ↔ pat.toList <:+: cs := by
    intro n cs
    induction cs generalizing n with
    | nil => simp [findGo]
    | cons c cs ih =>
      rw [findGo, infix_cons_iff, ← isPrefixOf_iff_prefix, ← ih (n + 1)]
      split <;> next hstart => simp [hstart]
  exact hfind 0 s.toList

theorem prefix_separator {q s t : List Char} (h : q ++ [c] <+: s ++ c :: t) :
    q = s ∨ q ++ [c] <+: s ∨ ∃ r, q = s ++ c :: r := by
  have hs : s ++ [c] <+: s ++ c :: t := ⟨t, by simp⟩
  rcases prefix_or_prefix_of_prefix h hs with hle | hle
  · rcases prefix_concat_iff.1 hle with heq | hle
    · exact .inl (append_cancel_right heq)
    · exact .inr (.inl hle)
  · rcases prefix_concat_iff.1 hle with heq | ⟨r, hr⟩
    · exact .inl (append_cancel_right heq).symm
    · exact .inr (.inr ⟨r, by simpa using hr.symm⟩)

theorem begins_iff {p : String} : begins p s ↔ p.toList <+: s.toList := by
  rw [begins, isPrefixOf_iff_prefix]

theorem begins_append (s t : String) : begins s (s ++ t) := by
  simp [begins_iff]

theorem drop_append {n : Nat} (hn : n ≤ s.length) (t : String) : drop n (s ++ t) = drop n s ++ t := by
  rw [← String.toList_inj, drop, drop, String.toList_ofList, String.toList_append, String.toList_append,
    String.toList_ofList, drop_append_of_le_length (String.length_toList ▸ hn)]

theorem drop_length_append (s t : String) : drop s.length (s ++ t) = t := by
  rw [drop_append (Nat.le_refl _), drop, ← String.length_toList]
  simp

theorem findLastGo_of_notMem {s : List Char} (hs : c ∉ s) (n : Nat) : findLastGo [c] n s = none := by
  induction s generalizing n with
  | nil => rfl
  | cons d s ih =>
    rw [mem_cons, not_or] at hs
    simp [findLastGo, ih hs.2, hs.1]

theorem findLastGo_append {t : List Char} (ht : c ∉ t) (n : Nat) (s : List Char) :
    findLastGo [c] n (s ++ c :: t) = some (n + s.length) := by
  induction s generalizing n with
  | nil => simp [findLastGo, findLastGo_of_notMem ht]
  | cons d s ih =>
    rw [cons_append, findLastGo, ih, length_cons]
    simp only [Option.some.injEq]
    omega

theorem afterLast_append (hsep : sep.toList = [c]) (s : String) (ht : c ∉ t.toList) :
    afterLast sep (s ++ sep ++ t) = t := by
  have hfound : findLast? sep (s ++ sep ++ t) = some s.length := by
    rw [findLast?, String.toList_append, String.toList_append, hsep, append_assoc, singleton_append,
      findLastGo_append ht, Nat.zero_add, String.length_toList]
  rw [afterLast, hfound]
  have hdrop : (s ++ sep ++ t).toList.drop (s.length + sep.length) = t.toList := by
    rw [← String.length_append, ← String.length_toList, String.toList_append (s := s ++ sep), drop_left]
  exact (congrArg String.ofList hdrop).trans (by simp)

theorem dropEnd_append (s t : String) : dropEnd t.length (s ++ t) = s := by
  have htake : (s ++ t).toList.take ((s ++ t).length - t.length) = s.toList := by
    rw [String.length_append, Nat.add_sub_cancel, ← String.length_toList, String.toList_append, take_left]
  exact (congrArg String.ofList htake).trans String.ofList_toList

/-! ## Whole numbers -/

theorem digit?_of_isDigit (hc : c.isDigit) : digit? c = some (c.toNat - '0'.toNat) := by
  have hrange := isDigit_iff.1 hc
  have hfirst : (48 ≤ c.toNat && c.toNat ≤ 57) := by simpa using hrange
  simp [digit?, digitZeros, hfirst]

theorem naturalGo_of_isDigit {cs : List Char} (hcs : ∀ c ∈ cs, c.isDigit) (n : Nat) {b : Bool}
    (hb : b ∨ cs ≠ []) : naturalGo n b cs = some (Nat.ofDigitChars 10 cs n) := by
  induction cs generalizing n b with
  | nil =>
    obtain rfl : b := by simpa using hb
    rfl
  | cons c cs ih =>
    have hc := hcs c (by simp)
    have hlow : c ≠ '_' := by
      rintro rfl
      exact absurd hc (by decide)
    rw [naturalGo, if_neg hlow, digit?_of_isDigit hc]
    exact ih (fun d hd => hcs d (by simp [hd])) _ (.inl rfl)

theorem naturalGo_toDigits (n : Nat) : naturalGo 0 false (Nat.toDigits 10 n) = some n := by
  have hread := naturalGo_of_isDigit (fun c => isDigit_of_mem_toDigits (n := n)) 0 (b := false)
    (.inr Nat.toDigits_ne_nil)
  rwa [Nat.ofDigitChars_ten_toDigits] at hread

theorem isBlank_of_isDigit (hc : c.isDigit) : isBlank c = false := by
  have hrange := isDigit_iff.1 hc
  have : ¬ isBlank c := by
    simp only [isBlank, Bool.or_eq_true, Bool.and_eq_true, decide_eq_true_eq, beq_iff_eq]
    omega
  simpa using this

theorem isBlank_of_isLineEnd (hc : isLineEnd c) : isBlank c := by
  simp only [isLineEnd, isBlank, Bool.or_eq_true, Bool.and_eq_true, decide_eq_true_eq, beq_iff_eq] at hc ⊢
  omega

theorem toList_toString_natCast (n : Nat) : (toString (n : Int)).toList = Nat.toDigits 10 n := Nat.toList_repr

theorem toList_toString_negSucc (n : Nat) : (toString (Int.negSucc n)).toList = '-' :: Nat.toDigits 10 (n + 1) := by
  have htext : toString (Int.negSucc n) = "-" ++ (n + 1).repr := rfl
  rw [htext, String.toList_append, Nat.toList_repr]
  rfl

theorem eq_sign_or_isDigit {n : Int} (hc : c ∈ (toString n).toList) : c = '-' ∨ c.isDigit := by
  cases n with
  | ofNat m => exact .inr (isDigit_of_mem_toDigits (toList_toString_natCast m ▸ hc))
  | negSucc m =>
    rw [toList_toString_negSucc, mem_cons] at hc
    exact hc.imp_right isDigit_of_mem_toDigits

theorem isWord_toString (n : Int) : IsWord (toString n) := by
  refine ⟨?_, fun c hc => ?_⟩
  · rw [Ne, ← String.toList_eq_nil_iff]
    cases n with
    | ofNat m => exact (toList_toString_natCast m).symm ▸ Nat.toDigits_ne_nil
    | negSucc m => exact (toList_toString_negSucc m).symm ▸ cons_ne_nil _ _
  · rcases eq_sign_or_isDigit hc with rfl | hc
    · decide
    · exact isBlank_of_isDigit hc

theorem trim_of_isWord (h : IsWord s) : trim s = s := by
  have hdrop : ∀ cs : List Char, (∀ c ∈ cs, isBlank c = false) → cs.dropWhile isBlank = cs := by
    intro cs hcs
    cases cs with
    | nil => rfl
    | cons c cs => rw [dropWhile_cons, hcs c (by simp), if_neg Bool.false_ne_true]
  have hreverse : ∀ c ∈ s.toList.reverse, isBlank c = false := fun c hc => h.2 c (mem_reverse.1 hc)
  simp [trim, trimStart, trimEnd, trimStartBy, trimEndBy, hdrop _ h.2, hdrop _ hreverse]

theorem integer?_toString (n : Int) : integer? (toString n) = some n := by
  rw [integer?, trim_of_isWord (isWord_toString n)]
  cases n with
  | ofNat m =>
    obtain ⟨c, cs, hcs⟩ := exists_cons_of_ne_nil (Nat.toDigits_ne_nil (n := m) (b := 10))
    have hc : c.isDigit := isDigit_of_mem_toDigits (n := m) (by simp [hcs])
    have hread := naturalGo_toDigits m
    have htext : (toString (Int.ofNat m)).toList = c :: cs := (toList_toString_natCast m).trans hcs
    rw [hcs] at hread
    rw [htext]
    split
    · next heq =>
      obtain ⟨rfl, -⟩ := cons.inj heq
      exact absurd hc (by decide)
    · next heq =>
      obtain ⟨rfl, -⟩ := cons.inj heq
      exact absurd hc (by decide)
    · rw [hread]
      rfl
  | negSucc m =>
    simp only [toList_toString_negSucc, naturalGo_toDigits]
    rfl

end ParallelPatterns.Text
