import ParallelPatterns.Proofs.NumberText

/-!
# Reading back written JSON

A value is written on one line or with an item a line; both are layouts that differ in the blanks
between the parts only. Reading what was written gives the value again, in any layout, up to two
things: a real number is what its text denotes, and of a repeated key the last value counts.
-/

namespace ParallelPatterns.Json

open List

/-! ## Strings -/

theorem hexDigit?_digitChar : ∀ d < 16, hexDigit? (Nat.digitChar d) = some d := by decide

theorem toList_hexUnit {n : Nat} (hn : n < 0x10000) :
    (hexUnit n).toList = [Nat.digitChar (n / 16 / 16 / 16), Nat.digitChar (n / 16 / 16 % 16),
      Nat.digitChar (n / 16 % 16), Nat.digitChar (n % 16)] := by
  unfold hexUnit
  rw [String.toList_ofList]
  by_cases h₁ : n < 16
  · rw [Nat.toDigits_of_lt_base h₁, Nat.mod_eq_of_lt h₁, Nat.div_eq_of_lt h₁]
    rfl
  rw [Nat.toDigits_of_base_le (by decide) (by omega)]
  by_cases h₂ : n / 16 < 16
  · rw [Nat.toDigits_of_lt_base h₂, Nat.mod_eq_of_lt h₂, Nat.div_eq_of_lt h₂]
    rfl
  rw [Nat.toDigits_of_base_le (by decide) (by omega)]
  by_cases h₃ : n / 16 / 16 < 16
  · rw [Nat.toDigits_of_lt_base h₃, Nat.mod_eq_of_lt h₃, Nat.div_eq_of_lt h₃]
    rfl
  rw [Nat.toDigits_of_base_le (by decide) (by omega), Nat.toDigits_of_lt_base (by omega)]
  rfl

theorem exists_hexUnit {n : Nat} (hn : n < 0x10000) :
    ∃ a b c d, (hexUnit n).toList = [a, b, c, d] ∧ hexUnit? a b c d = some n := by
  refine ⟨_, _, _, _, toList_hexUnit hn, ?_⟩
  unfold hexUnit?
  rw [hexDigit?_digitChar _ (by omega), hexDigit?_digitChar _ (by omega),
    hexDigit?_digitChar _ (by omega), hexDigit?_digitChar _ (by omega)]
  show some _ = some n
  congr 1
  omega

theorem stringGo_unit {a b c d : Char} {u : Nat} (hu : hexUnit? a b c d = some u)
    (halone : ¬(0xd800 ≤ u ∧ u ≤ 0xdfff)) (acc cs : List Char) :
    stringGo acc ('\\' :: 'u' :: a :: b :: c :: d :: cs) = stringGo (Char.ofNat u :: acc) cs := by
  have hout (low high : Nat) (hlow : 0xd800 ≤ low) (hhigh : high ≤ 0xdfff) :
      (decide (low ≤ u) && decide (u ≤ high)) = false := by
    simp only [Bool.and_eq_false_iff, decide_eq_false_iff_not]
    omega
  by_cases hnext : ∃ e f g h rest, cs = '\\' :: 'u' :: e :: f :: g :: h :: rest
  · obtain ⟨e, f, g, h, rest, rfl⟩ := hnext
    rw [stringGo]
    simp [hu, hout]
  · rw [stringGo]
    · simp [hu, hout]
    · exact fun e f g h rest heq => hnext ⟨e, f, g, h, rest, heq⟩

variable (s : String) {fuel : Nat} {ms : List (String × Json)} {gap : List Char}
  {r : Json × List Char} (cs acc : List Char)

theorem stringGo_escapeChar (c : Char) (cs : List Char) :
    stringGo acc ((escapeChar c).toList ++ cs) = stringGo (c :: acc) cs := by
  have hvalid : c.toNat < 0xd800 ∨ 0xdfff < c.toNat ∧ c.toNat < 0x110000 := c.valid
  have hsame : Char.ofNat c.toNat = c := Char.ofNat_toNat c
  by_cases hshort : c ∈ ['"', '\\', '\n', '\r', '\t', Char.ofNat 8, Char.ofNat 12]
  · simp only [mem_cons, not_mem_nil, or_false] at hshort
    rcases hshort with rfl | rfl | rfl | rfl | rfl | rfl | rfl <;> simp [escapeChar, stringGo]
  simp only [mem_cons, not_mem_nil, or_false, not_or] at hshort
  obtain ⟨hquote, hslash, hfeed, hreturn, htab, hback, hform⟩ := hshort
  have hcode : ∀ n, c ≠ Char.ofNat n → ¬c.toNat == n := fun n hne heq => hne (beq_iff_eq.1 heq ▸ hsame.symm)
  simp only [escapeChar]
  rw [if_neg hquote, if_neg hslash, if_neg hfeed, if_neg hreturn, if_neg htab,
    if_neg (hcode 8 hback), if_neg (hcode 12 hform)]
  by_cases hplain : 0x20 ≤ c.toNat ∧ c.toNat ≤ 0x7e
  · have hcontrol : ¬c.toNat < 0x20 := by omega
    rw [if_pos (by simpa using hplain), String.toList_singleton, singleton_append, stringGo]
    · simp [hcontrol, hslash]
    · exact hquote
    · exact fun a b c d e f g h rest heq => absurd heq hslash
    · exact fun a b c d rest heq => absurd heq hslash
    · exact fun a rest heq => absurd heq hslash
  rw [if_neg (by simpa using hplain)]
  by_cases hsmall : c.toNat < 0x10000
  · obtain ⟨a, b, d, e, htext, hunit⟩ := exists_hexUnit hsmall
    rw [if_pos hsmall, String.toList_append, htext, ← hsame, ← stringGo_unit hunit (by omega)]
    rfl
  · have hhigh : 0xd800 + (c.toNat - 0x10000) / 0x400 < 0xdc00 := by omega
    have hlow : 0xdc00 + (c.toNat - 0x10000) % 0x400 < 0xe000 := by omega
    obtain ⟨a, b, d, e, htext, hunit⟩ := exists_hexUnit (show _ < 0x10000 from Nat.lt_trans hhigh (by decide))
    obtain ⟨a', b', d', e', htext', hunit'⟩ := exists_hexUnit (show _ < 0x10000 from Nat.lt_trans hlow (by decide))
    have hpair : pairedUnits (0xd800 + (c.toNat - 0x10000) / 0x400) (0xdc00 + (c.toNat - 0x10000) % 0x400) = c := by
      refine (congrArg Char.ofNat ?_).trans hsame
      omega
    rw [if_neg hsmall, String.toList_append, String.toList_append, String.toList_append, htext, htext']
    simp [stringGo, hunit, hunit', hpair, Nat.le_of_lt_succ hhigh, Nat.le_of_lt_succ hlow]

theorem stringGo_quote (s cs : List Char) :
    stringGo acc ((s.map escapeChar).flatMap String.toList ++ '"' :: cs) =
      some (String.ofList (acc.reverse ++ s), cs) := by
  induction s generalizing acc with
  | nil => simp [stringGo]
  | cons c s ih =>
    rw [map_cons, flatMap_cons, append_assoc, stringGo_escapeChar, ih]
    simp

def quotedRest (s : String) : List Char := (s.toList.map escapeChar).flatMap String.toList ++ ['"']

theorem toList_quote : (quote s).toList = '"' :: quotedRest s := by
  simp [quote, quotedRest]

theorem stringGo_quotedRest : stringGo [] (quotedRest s ++ cs) = some (s, cs) := by
  rw [quotedRest, append_assoc, singleton_append, stringGo_quote]
  simp

/-! ## Layouts -/

/-- The characters are blanks between the parts of a value. -/
def IsGap (cs : List Char) : Prop := ∀ c ∈ cs, c = ' ' ∨ c = '\n'

theorem skipBlanks_gap (h : IsGap gap) (cs : List Char) : skipBlanks (gap ++ cs) = skipBlanks cs := by
  refine dropWhile_append_of_pos fun c hc => ?_
  rcases h c hc with rfl | rfl <;> rfl

theorem skipBlanks_blank : skipBlanks (' ' :: cs) = skipBlanks cs := rfl

theorem skipBlanks_of_valueGo {cs : List Char} (h : valueGo fuel cs = some r) :
    skipBlanks cs = cs ∧ ∀ rest, cs ≠ ']' :: rest := by
  have hnone : ∀ c rest, c ∈ [' ', '\t', '\n', '\r', ']'] → valueGo fuel (c :: rest) = none := by
    intro c rest hc
    cases fuel with
    | zero => simp [valueGo]
    | succ fuel =>
      simp only [mem_cons, not_mem_nil, or_false] at hc
      rcases hc with rfl | rfl | rfl | rfl | rfl <;> rfl
  cases cs with
  | nil => exact ⟨rfl, by simp⟩
  | cons c cs =>
    have hc : c ∉ [' ', '\t', '\n', '\r', ']'] := by
      intro hc
      rw [hnone c cs hc] at h
      cases h
    simp only [mem_cons, not_or] at hc
    exact ⟨by simp [skipBlanks, hc], by simp [hc]⟩

/-- Blanks alone stand between the parts. -/
structure Layout.IsBlank (l : Layout) : Prop where
  gap : ∀ level, IsGap (l.gap level).toList
  space : ∀ level, IsGap (l.space level).toList

variable (l : Layout) (level : Nat)

@[irreducible]
def itemChars (xs : List Json) : List Char := (("," ++ l.space level).intercalate (writeItems l level xs)).toList

@[irreducible]
def memberChars (ms : List (String × Json)) : List Char :=
  (("," ++ l.space level).intercalate (writeMembers l level ms)).toList

theorem itemChars_singleton (x : Json) : itemChars l level [x] = (write l level x).toList := by
  simp [itemChars, writeItems]

theorem itemChars_cons (x y : Json) (xs : List Json) : itemChars l level (x :: y :: xs) =
    (write l level x).toList ++ ',' :: ((l.space level).toList ++ itemChars l level (y :: xs)) := by
  simp [itemChars, writeItems]

theorem memberChars_singleton (k : String) (v : Json) :
    memberChars l level [(k, v)] = '"' :: (quotedRest k ++ ':' :: ' ' :: (write l level v).toList) := by
  simp [memberChars, writeMembers, toList_quote]

theorem memberChars_cons (k : String) (v : Json) (m : String × Json) (ms : List (String × Json)) :
    memberChars l level ((k, v) :: m :: ms) = '"' :: (quotedRest k ++ ':' :: ' ' ::
      ((write l level v).toList ++ ',' :: ((l.space level).toList ++ memberChars l level (m :: ms)))) := by
  simp [memberChars, writeMembers, toList_quote]

theorem toList_write_arr (x : Json) (xs : List Json) : (write l level (.arr (x :: xs))).toList =
    '[' :: ((l.gap (level + 1)).toList ++ (itemChars l (level + 1) (x :: xs) ++
      ((l.gap level).toList ++ [']']))) := by
  simp [write, itemChars]

theorem toList_write_obj (m : String × Json) (ms : List (String × Json)) : (write l level (.obj (m :: ms))).toList =
    '\x7b' :: ((l.gap (level + 1)).toList ++ (memberChars l (level + 1) (m :: ms) ++
      ((l.gap level).toList ++ ['\x7d']))) := by
  simp [write, memberChars]

mutual

/-- The value that is read: a real number is what its text denotes, and of a repeated key the last
value counts. -/
def reread : Json → Json
  | .real x => .real (realRead x)
  | .arr xs => .arr (rereadItems xs)
  | .obj ms => .obj (rereadMembers [] ms)
  | .null => .null
  | .bool b => .bool b
  | .int n => .int n
  | .str s => .str s

def rereadItems : List Json → List Json
  | [] => []
  | x :: xs => reread x :: rereadItems xs

def rereadMembers (acc : List (String × Json)) : List (String × Json) → List (String × Json)
  | [] => acc
  | (k, v) :: ms => rereadMembers (setMember acc k (reread v)) ms

end

/-! ## Reading a layout -/

theorem stops_comma : Stops (',' :: cs) := stops_cons (by decide)

theorem stops_gap (hgap : IsGap gap) {c : Char} (hc : c = ']' ∨ c = '\x7d') (cs : List Char) :
    Stops (gap ++ c :: cs) := by
  cases gap with
  | nil =>
    rcases hc with rfl | rfl <;> exact stops_cons (by decide)
  | cons b gap =>
    rcases hgap b mem_cons_self with rfl | rfl <;> exact stops_cons (by decide)

theorem skipBlanks_of_itemsGo {acc : List Json} {cs : List Char}
    (h : itemsGo fuel acc cs = some r) : skipBlanks cs = cs ∧ ∀ rest, cs ≠ ']' :: rest := by
  cases fuel with
  | zero => simp [itemsGo] at h
  | succ fuel =>
    rw [itemsGo] at h
    cases hv : valueGo fuel cs with
    | none =>
      rw [hv] at h
      cases h
    | some v => exact skipBlanks_of_valueGo hv

theorem valueGo_arr {cs : List Char} (hgap : IsGap gap)
    (h : itemsGo fuel [] cs = some r) : valueGo (fuel + 1) ('[' :: (gap ++ cs)) = some r := by
  obtain ⟨hskip, hclose⟩ := skipBlanks_of_itemsGo h
  rw [valueGo, skipBlanks_gap hgap, hskip]
  split
  · rename_i rest
    exact absurd rfl (hclose rest)
  · exact h

theorem valueGo_obj {cs : List Char} (hgap : IsGap gap)
    (h : membersGo fuel [] ('"' :: cs) = some r) : valueGo (fuel + 1) ('\x7b' :: (gap ++ '"' :: cs)) = some r := by
  have hskip : skipBlanks (gap ++ '"' :: cs) = '"' :: cs := by
    rw [skipBlanks_gap hgap]
    rfl
  rw [valueGo, hskip]
  exact h

theorem membersGo_member (acc : List (String × Json)) (key : String) {v : Json}
    {cs r rest : List Char} (hv : valueGo fuel cs = some (v, r)) :
    let read := membersGo (fuel + 1) acc ('"' :: (quotedRest key ++ ':' :: ' ' :: cs))
    (skipBlanks r = '\x7d' :: rest → read = some (.obj (setMember acc key v), rest)) ∧
      (skipBlanks r = ',' :: rest → read = membersGo fuel (setMember acc key v) (skipBlanks rest)) := by
  have hcolon : skipBlanks (':' :: ' ' :: cs) = ':' :: ' ' :: cs := rfl
  have hblank : skipBlanks (' ' :: cs) = cs := (skipBlanks_blank cs).trans (skipBlanks_of_valueGo hv).1
  rw [membersGo, stringGo_quotedRest]
  refine ⟨fun hr => ?_, fun hr => ?_⟩
  all_goals simp only [hcolon, hblank, hv, hr]

theorem exists_memberChars (m : String × Json) (ms : List (String × Json)) :
    ∃ cs, memberChars l level (m :: ms) = '"' :: cs := by
  cases ms with
  | nil => exact ⟨_, memberChars_singleton ..⟩
  | cons m' ms => exact ⟨_, memberChars_cons ..⟩

theorem ne_nil_of_valueGo {cs : List Char} (h : valueGo fuel (cs ++ []) = some r) : cs ≠ [] := by
  rintro rfl
  cases fuel <;> simp [valueGo, number?, wholeDigits] at h

theorem toList_write_ne_nil : ∀ j, (write l level j).toList ≠ []
  | .int n => by
    rw [write]
    exact ne_nil_of_valueGo (valueGo_int n stops_nil 0)
  | .real x => by
    rw [write]
    exact ne_nil_of_valueGo (valueGo_real x stops_nil 0)
  | .str s => by simp [write, toList_quote]
  | .null | .bool true | .bool false | .arr [] | .arr (_ :: _) | .obj [] | .obj (_ :: _) => by simp [write]

mutual

-- Every call reads a character, and a bracket or a comma is read for every further call.
theorem valueGo_write {l : Layout} (hl : l.IsBlank) : ∀ (j : Json) (level : Nat) {fuel : Nat}
    {rest : List Char}, 2 * (write l level j).toList.length ≤ fuel → Stops rest →
    valueGo fuel ((write l level j).toList ++ rest) = some (j.reread, rest)
  | j, level, 0, rest, hfuel, _ => by
    have := length_pos_of_ne_nil (toList_write_ne_nil l level j)
    omega
  | .null, level, fuel + 1, rest, _, _ | .bool true, level, fuel + 1, rest, _, _
  | .bool false, level, fuel + 1, rest, _, _ => by simp [write, valueGo, reread]
  | .int n, level, fuel + 1, rest, _, hrest => by
    rw [write, reread]
    exact valueGo_int n hrest fuel
  | .real x, level, fuel + 1, rest, _, hrest => by
    rw [write, reread]
    exact valueGo_real x hrest fuel
  | .str s, level, fuel + 1, rest, _, _ => by
    rw [write, reread, toList_quote, cons_append, valueGo, stringGo_quotedRest]
    rfl
  | .arr [], level, fuel + 1, rest, _, _ => by simp [write, valueGo, skipBlanks, reread, rereadItems]
  | .arr (x :: xs), level, fuel + 1, rest, hfuel, _ => by
    simp only [toList_write_arr, length_cons, length_append] at hfuel
    have hitems := itemsGo_write hl x xs (level + 1) [] rest (show _ ≤ fuel by omega) (hl.gap level)
    have hread := valueGo_arr (hl.gap (level + 1)) hitems
    simpa [toList_write_arr, reread] using hread
  | .obj [], level, fuel + 1, rest, _, _ => by simp [write, valueGo, skipBlanks, reread, rereadMembers]
  | .obj ((k, v) :: ms), level, fuel + 1, rest, hfuel, _ => by
    simp only [toList_write_obj, length_cons, length_append] at hfuel
    have hmembers := membersGo_write hl k v ms (level + 1) [] rest (show _ ≤ fuel by omega) (hl.gap level)
    obtain ⟨cs, hcs⟩ := exists_memberChars l (level + 1) (k, v) ms
    rw [hcs, cons_append] at hmembers
    have hread := valueGo_obj (hl.gap (level + 1)) hmembers
    simpa [toList_write_obj, reread, hcs] using hread

theorem itemsGo_write {l : Layout} (hl : l.IsBlank) :
    ∀ (x : Json) (xs : List Json) (level : Nat) {fuel : Nat} (acc : List Json) {gap : List Char}
      (rest : List Char), 2 * (itemChars l level (x :: xs)).length < fuel → IsGap gap →
    itemsGo fuel acc (itemChars l level (x :: xs) ++ (gap ++ ']' :: rest)) =
      some (.arr (acc.reverse ++ rereadItems (x :: xs)), rest)
  | x, xs, level, 0, acc, gap, rest, hfuel, _ => absurd hfuel (Nat.not_lt_zero _)
  | x, [], level, fuel + 1, acc, gap, rest, hfuel, hgap => by
    rw [itemChars_singleton] at hfuel ⊢
    have hx := valueGo_write hl x level (show _ ≤ fuel by omega) (stops_gap hgap (.inl rfl) rest)
    have hskip : skipBlanks (gap ++ ']' :: rest) = ']' :: rest := skipBlanks_gap hgap _
    rw [itemsGo, hx]
    simp [hskip, rereadItems]
  | x, y :: xs, level, fuel + 1, acc, gap, rest, hfuel, hgap => by
    simp only [itemChars_cons, length_cons, length_append] at hfuel
    have hitems := itemsGo_write hl y xs level (x.reread :: acc) rest (show _ ≤ fuel by omega) hgap
    have hskip := skipBlanks_gap (hl.space level) (itemChars l level (y :: xs) ++ (gap ++ ']' :: rest))
    have hx := valueGo_write hl x level (show _ ≤ fuel by omega)
      (stops_comma ((l.space level).toList ++ (itemChars l level (y :: xs) ++ (gap ++ ']' :: rest))))
    rw [(skipBlanks_of_itemsGo hitems).1] at hskip
    rw [itemChars_cons, append_assoc, cons_append, append_assoc, itemsGo, hx]
    show itemsGo fuel (x.reread :: acc) (skipBlanks _) = _
    rw [hskip, hitems]
    simp [rereadItems]

theorem membersGo_write {l : Layout} (hl : l.IsBlank) : ∀ (k : String) (v : Json) (ms : List (String × Json))
    (level : Nat) {fuel : Nat} (acc : List (String × Json)) {gap : List Char} (rest : List Char),
    2 * (memberChars l level ((k, v) :: ms)).length < fuel → IsGap gap →
    membersGo fuel acc (memberChars l level ((k, v) :: ms) ++ (gap ++ '\x7d' :: rest)) =
      some (.obj (rereadMembers acc ((k, v) :: ms)), rest)
  | k, v, ms, level, 0, acc, gap, rest, hfuel, _ => absurd hfuel (Nat.not_lt_zero _)
  | k, v, [], level, fuel + 1, acc, gap, rest, hfuel, hgap => by
    simp only [memberChars_singleton, length_cons, length_append] at hfuel
    have hv := valueGo_write hl v level (show _ ≤ fuel by omega) (stops_gap hgap (.inr rfl) rest)
    have hskip : skipBlanks (gap ++ '\x7d' :: rest) = '\x7d' :: rest := skipBlanks_gap hgap _
    have hlast := (membersGo_member acc k hv).1 hskip
    simpa [memberChars_singleton, rereadMembers] using hlast
  | k, v, (k', v') :: ms, level, fuel + 1, acc, gap, rest, hfuel, hgap => by
    simp only [memberChars_cons, length_cons, length_append] at hfuel
    have hmembers := membersGo_write hl k' v' ms level (setMember acc k v.reread) rest (show _ ≤ fuel by omega) hgap
    have hskip := skipBlanks_gap (hl.space level) (memberChars l level ((k', v') :: ms) ++ (gap ++ '\x7d' :: rest))
    obtain ⟨cs, hcs⟩ := exists_memberChars l level (k', v') ms
    rw [hcs, cons_append] at hmembers hskip
    have hv := valueGo_write hl v level (show _ ≤ fuel by omega)
      (stops_comma ((l.space level).toList ++ '"' :: (cs ++ (gap ++ '\x7d' :: rest))))
    have hnext := (membersGo_member acc k hv).2 rfl
    rw [hskip] at hnext
    have hquote : skipBlanks ('"' :: (cs ++ (gap ++ '\x7d' :: rest))) =
      '"' :: (cs ++ (gap ++ '\x7d' :: rest)) := rfl
    rw [hquote, hmembers] at hnext
    simpa [memberChars_cons, rereadMembers, hcs] using hnext

end

theorem parse?_write {l : Layout} (hl : l.IsBlank) (j : Json) : parse? (write l 0 j) = some j.reread := by
  have hread := valueGo_write hl j 0 (Nat.le_add_right _ 2) stops_nil
  rw [append_nil] at hread
  unfold parse?
  simp only [(skipBlanks_of_valueGo hread).1, hread]
  rfl

theorem isGap_feed (width level : Nat) : IsGap (feed width level).toList := by
  intro c hc
  rw [feed, String.toList_append] at hc
  rcases mem_append.1 hc with hfeed | hblank
  · exact .inr (by simpa using hfeed)
  · rw [String.toList_ofList] at hblank
    exact .inl (eq_of_mem_replicate hblank)

/-! ## Whole texts -/

/-- The text is a written form of the value: on one line, or with an item a line. -/
def IsTextOf (s : String) (j : Json) : Prop := s = j.compact ∨ ∃ width, s = j.indented width

theorem parse?_of_isTextOf {s : String} {j : Json} (h : IsTextOf s j) : parse? s = some j.reread := by
  rcases h with rfl | ⟨width, rfl⟩
  · have hl : Layout.IsBlank ⟨fun _ => "", fun _ => " "⟩ := ⟨by simp [IsGap], by simp [IsGap]⟩
    rw [compact, parse?_write hl]
  · have hl : Layout.IsBlank ⟨feed width, feed width⟩ := ⟨isGap_feed width, isGap_feed width⟩
    rw [indented, parse?_write hl]

theorem setMember_of_notMem {key : String} (h : key ∉ ms.map (·.1)) (v : Json) :
    setMember ms key v = ms ++ [(key, v)] := by
  induction ms with
  | nil => rfl
  | cons m ms ih =>
    rw [map_cons, mem_cons, not_or] at h
    have hne : (m.1 == key) = false := by
      rw [beq_eq_false_iff_ne]
      exact fun heq => h.1 heq.symm
    simp [setMember, hne, ih h.2]

theorem rereadMembers_append (acc : List (String × Json)) (h : ((acc ++ ms).map (·.1)).Nodup) :
    rereadMembers acc ms = acc ++ ms.map fun m => (m.1, m.2.reread) := by
  induction ms generalizing acc with
  | nil => simp [rereadMembers]
  | cons m ms ih =>
    have hnew : m.1 ∉ acc.map (·.1) := by
      rw [map_append] at h
      exact fun hm => (nodup_append.1 h).2.2 m.1 hm m.1 mem_cons_self rfl
    have hkeys : (((acc ++ [(m.1, m.2.reread)]) ++ ms).map (·.1)).Nodup := by
      simpa using h
    rw [rereadMembers, setMember_of_notMem hnew, ih _ hkeys]
    simp

theorem rereadItems_eq_map (xs : List Json) : rereadItems xs = xs.map reread := by
  induction xs with
  | nil => rfl
  | cons x xs ih => rw [rereadItems, ih, map_cons]

theorem reread_obj (h : (ms.map (·.1)).Nodup) :
    (Json.obj ms).reread = .obj (ms.map fun m => (m.1, m.2.reread)) := by
  rw [reread, rereadMembers_append [] h, nil_append]

@[simp]
theorem reread_arr (xs : List Json) : (Json.arr xs).reread = .arr (xs.map reread) := by
  rw [reread, rereadItems_eq_map]

@[simp]
theorem reread_str : (Json.str s).reread = .str s := by
  rw [reread]

theorem reread_strings (ss : List String) : (strings ss).reread = strings ss := by
  simp [strings]

end ParallelPatterns.Json
