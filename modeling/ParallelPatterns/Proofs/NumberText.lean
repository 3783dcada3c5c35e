import ParallelPatterns.Json.Reader
import ParallelPatterns.Json.Writer
import ParallelPatterns.Proofs.Cutting

/-!
# Reading back written numbers

A number is written as a whole part without leading zeros, a fraction and an exponent. Such a text
is read as a whole, whatever stands behind it, as long as that does not go on like a number. Whole
numbers are read as what they were; of a real number only this much is needed, that its shortest
text is one number.
-/

namespace ParallelPatterns

open List Nat

variable {c : Char} {n d : Nat}

namespace Json

def Stops (rest : List Char) : Prop := ∀ c ∈ rest.head?, isAsciiDigit c = false ∧ c ≠ '.' ∧ c ≠ 'e' ∧ c ≠ 'E'

theorem stops_nil : Stops [] := by
  rintro c ⟨⟩

theorem stops_cons {rest : List Char} (hc : isAsciiDigit c = false ∧ c ≠ '.' ∧ c ≠ 'e' ∧ c ≠ 'E') :
    Stops (c :: rest) := by
  rintro d ⟨⟩
  exact hc

/-! ## Digits -/

theorem span_digits {ds rest : List Char} (hds : ∀ c ∈ ds, isAsciiDigit c)
    (hrest : ∀ c ∈ rest.head?, isAsciiDigit c = false) :
    (ds ++ rest).takeWhile isAsciiDigit = ds ∧ (ds ++ rest).dropWhile isAsciiDigit = rest := by
  rw [takeWhile_append_of_pos hds, dropWhile_append_of_pos hds]
  cases rest with
  | nil => simp
  | cons c rest =>
    have hc : isAsciiDigit c = false := hrest c rfl
    simp [hc]

theorem isAsciiDigit_of_mem_toDigits (hc : c ∈ toDigits 10 n) : isAsciiDigit c :=
  isDigit_of_mem_toDigits hc

theorem decimal_toDigits (n : Nat) : decimal (toDigits 10 n) = n := ofDigitChars_ten_toDigits

theorem head?_toDigits (h : (toDigits 10 n).head? = some '0') : n = 0 := by
  induction n using Nat.strongRecOn with
  | ind n ih =>
    by_cases hn : n < 10
    · rw [toDigits_of_lt_base hn] at h
      have hdigit : ∀ d < 10, digitChar d = '0' → d = 0 := by decide
      exact hdigit n hn (Option.some.inj h)
    · rw [toDigits_of_base_le (by decide) (by omega), head?_append_of_ne_nil _ toDigits_ne_nil] at h
      have := ih (n / 10) (by omega) h
      omega

/-! ## Numbers without a sign -/

/-- The parts of a written number without its sign. -/
structure NumberText where
  whole : List Char
  fraction : List Char
  exponent : Option (Bool × List Char)
  whole_digits : ∀ c ∈ whole, isAsciiDigit c
  whole_ne_nil : whole ≠ []
  no_leading_zero : whole.head? = some '0' → whole = ['0']
  fraction_digits : ∀ c ∈ fraction, isAsciiDigit c
  exponent_digits : ∀ e ∈ exponent, (∀ c ∈ e.2, isAsciiDigit c) ∧ e.2 ≠ []

namespace NumberText

def exponentChars : Option (Bool × List Char) → List Char
  | none => []
  | some (negative, ds) => 'e' :: (if negative then '-' else '+') :: ds

def fractionChars (ds : List Char) : List Char := if ds = [] then [] else '.' :: ds

def chars (t : NumberText) : List Char := t.whole ++ (fractionChars t.fraction ++ exponentChars t.exponent)

def power (t : NumberText) : Int :=
  match t.exponent with
  | none => 0
  | some (negative, ds) => if negative then -(decimal ds : Int) else decimal ds

def value (t : NumberText) (negative : Bool) : Json :=
  let signed (x : Float) : Float := if negative then -x else x
  if t.fraction = [] then
    if t.exponent.isNone then .int (if negative then -(decimal t.whole : Int) else decimal t.whole)
    else .real (signed (realOf (decimal t.whole) t.power))
  else .real (signed (realOf (decimal (t.whole ++ t.fraction)) (t.power - t.fraction.length)))

variable (t : NumberText) {rest : List Char}

section

variable (hrest : Stops rest)
include hrest

theorem exponent?_chars : exponent? (exponentChars t.exponent ++ rest) =
    t.exponent.map fun _ => (t.power, rest) := by
  unfold power
  cases he : t.exponent with
  | none =>
    cases rest with
    | nil => rfl
    | cons c rest =>
      obtain ⟨-, -, hsmall, hlarge⟩ := hrest c rfl
      simp [exponentChars, exponent?, hsmall, hlarge]
  | some e =>
    obtain ⟨negative, ds⟩ := e
    obtain ⟨hds, hne⟩ := t.exponent_digits _ he
    obtain ⟨htake, hdrop⟩ := span_digits hds fun c hc => (hrest c hc).1
    cases negative <;> simp [exponentChars, exponent?, htake, hdrop, hne]

theorem head?_exponent (hc : c ∈ (exponentChars t.exponent ++ rest).head?) : isAsciiDigit c = false := by
  cases he : t.exponent with
  | none =>
    rw [he] at hc
    exact (hrest c hc).1
  | some e =>
    rw [he] at hc
    cases hc
    rfl

theorem head?_fraction
    (hc : c ∈ (fractionChars t.fraction ++ (exponentChars t.exponent ++ rest)).head?) : isAsciiDigit c = false := by
  unfold fractionChars at hc
  split at hc
  · exact t.head?_exponent hrest hc
  · cases hc
    rfl

theorem fraction?_chars :
    fraction? (fractionChars t.fraction ++ (exponentChars t.exponent ++ rest)) =
      if t.fraction = [] then none else some (t.fraction, exponentChars t.exponent ++ rest) := by
  by_cases hf : t.fraction = []
  · rw [if_pos hf, fractionChars, if_pos hf]
    cases he : t.exponent with
    | none =>
      cases rest with
      | nil => rfl
      | cons c rest =>
        obtain ⟨-, hpoint, -⟩ := hrest c rfl
        unfold fraction?
        split
        · rename_i heq
          cases heq
          exact absurd rfl hpoint
        · rfl
    | some e => rfl
  · rw [fractionChars]
    obtain ⟨htake, hdrop⟩ := span_digits t.fraction_digits fun c hc => t.head?_exponent hrest hc
    simp [fraction?, htake, hdrop, hf]

theorem wholeDigits_chars : wholeDigits (t.chars ++ rest) = t.whole := by
  have htake : (t.chars ++ rest).takeWhile isAsciiDigit = t.whole := by
    rw [chars, append_assoc, append_assoc]
    exact (span_digits t.whole_digits fun c hc => t.head?_fraction hrest hc).1
  unfold wholeDigits
  split
  · rename_i heq
    refine (t.no_leading_zero ?_).symm
    have hhead := congrArg head? heq
    rwa [chars, append_assoc, head?_append_of_ne_nil _ t.whole_ne_nil] at hhead
  · exact htake

end

theorem number?_chars (negative : Bool) (hrest : Stops rest) :
    number? negative (t.chars ++ rest) = some (t.value negative, rest) := by
  have hdrop : (t.chars ++ rest).drop t.whole.length =
      fractionChars t.fraction ++ (exponentChars t.exponent ++ rest) := by
    rw [chars, append_assoc, append_assoc, drop_left]
  have hne : t.whole.isEmpty = false := by simpa using t.whole_ne_nil
  unfold number? value
  simp only [t.wholeDigits_chars hrest, hne, hdrop, t.fraction?_chars hrest]
  by_cases hf : t.fraction = []
  · simp only [hf, if_true, fractionChars, nil_append, t.exponent?_chars hrest]
    cases he : t.exponent with
    | none => simp [exponentChars]
    | some e => simp
  · simp only [hf, if_false, t.exponent?_chars hrest]
    cases he : t.exponent with
    | none => simp [exponentChars, power, he]
    | some e => simp

def ofNat (n : Nat) : NumberText where
  whole := Nat.toDigits 10 n
  fraction := []
  exponent := none
  whole_digits _ hc := isAsciiDigit_of_mem_toDigits hc
  whole_ne_nil := Nat.toDigits_ne_nil
  no_leading_zero h := by
    rw [head?_toDigits h]
    rfl
  fraction_digits _ hc := absurd hc not_mem_nil
  exponent_digits _ he := by cases he

theorem chars_ofNat (n : Nat) : (ofNat n).chars = toDigits 10 n := by
  simp [chars, ofNat, fractionChars, exponentChars]

theorem value_ofNat (n : Nat) (negative : Bool) : (ofNat n).value negative = .int (if negative then -n else n) := by
  simp [value, ofNat, decimal_toDigits]

def IsReal (t : NumberText) : Prop := t.fraction ≠ [] ∨ t.exponent ≠ none

theorem exists_value_of_isReal {t : NumberText} (h : t.IsReal) (negative : Bool) :
    ∃ x, t.value negative = .real x := by
  unfold value
  by_cases hf : t.fraction = []
  · have he : t.exponent.isNone = false := by
      have hne : t.exponent ≠ none := h.resolve_left (not_not_intro hf)
      rwa [← Bool.not_eq_true, Option.isNone_iff_eq_none]
    simp only [hf, he]
    exact ⟨_, rfl⟩
  · simp only [hf]
    exact ⟨_, rfl⟩

theorem exists_cons_of_chars (t : NumberText) : ∃ c cs, t.chars = c :: cs ∧ isAsciiDigit c := by
  cases hw : t.whole with
  | nil => exact absurd hw t.whole_ne_nil
  | cons c ds =>
    refine ⟨c, ds ++ (fractionChars t.fraction ++ exponentChars t.exponent), ?_, t.whole_digits c (by simp [hw])⟩
    rw [chars, hw, cons_append]

end NumberText

/-! ## Signed numbers -/

def signChars (negative : Bool) : List Char := if negative then ['-'] else []

theorem valueGo_number (t : NumberText) (negative : Bool) {rest : List Char} (hrest : Stops rest) (fuel : Nat) :
    valueGo (fuel + 1) (signChars negative ++ t.chars ++ rest) = some (t.value negative, rest) := by
  obtain ⟨c, cs, hchars, hc⟩ := t.exists_cons_of_chars
  rw [← t.number?_chars negative hrest, hchars]
  cases negative with
  | true =>
    show valueGo (fuel + 1) ('-' :: c :: (cs ++ rest)) = number? true (c :: (cs ++ rest))
    have hinfinity : c ≠ 'I' := by
      rintro rfl
      cases hc
    unfold valueGo
    split <;> simp_all
  | false =>
    show valueGo (fuel + 1) (c :: (cs ++ rest)) = number? false (c :: (cs ++ rest))
    generalize cs ++ rest = cs
    unfold valueGo
    split <;> first | rfl | (rename_i heq; cases heq; cases hc)

theorem valueGo_int (n : Int) {rest : List Char} (hrest : Stops rest) (fuel : Nat) :
    valueGo (fuel + 1) ((toString n).toList ++ rest) = some (.int n, rest) := by
  cases n with
  | ofNat n =>
    have h := valueGo_number (.ofNat n) false hrest fuel
    rwa [NumberText.chars_ofNat, NumberText.value_ofNat, ← Text.toList_toString_natCast] at h
  | negSucc n =>
    have h := valueGo_number (.ofNat (n + 1)) true hrest fuel
    rw [NumberText.chars_ofNat, NumberText.value_ofNat] at h
    rw [Text.toList_toString_negSucc]
    exact h

end Json

/-! ## The shortest text of a real number -/

namespace Decimal

open ParallelPatterns.Json NumberText

variable {i : Interval} {e : Int} {b : Binary}

theorem Interval.holds_zero (hlow : 0 < i.low) (e : Int) : i.holds 0 e = false := by
  unfold holds
  cases e with
  | ofNat k => simp [show i.low ≠ 0 by omega]
  | negSucc k =>
    have hscaled : i.low * 10 ^ (k + 1) ≠ 0 := Nat.mul_ne_zero (by omega) (Nat.pow_pos (by decide)).ne'
    simp [hscaled]

theorem Interval.withDigits?_ne_zero (hlow : 0 < i.low) (h : i.withDigits? n = some (d, e)) : d ≠ 0 := by
  rintro rfl
  have hzero := holds_zero hlow (i.magnitude - n + 1)
  unfold withDigits? at h
  grind

theorem dropZeros_ne_zero {fuel : Nat} (hd : d ≠ 0) (e : Int) : (dropZeros fuel d e).1 ≠ 0 := by
  induction fuel generalizing d e with
  | zero => exact hd
  | succ fuel ih =>
    unfold dropZeros
    split
    · have hmod : d % 10 = 0 := by simp_all
      exact ih (by omega) (e + 1)
    · exact hd

theorem Binary.digits_eq_zero (hb : b.mantissa ≠ 0) (h : b.digits.1 = 0) : b.digits = (0, 0) := by
  have hlow : 0 < b.interval.low := by
    unfold interval
    have hscaled : ∀ k, 0 < Nat.pow 2 k := fun k => Nat.pow_pos (by decide)
    cases b.exponent with
    | ofNat e =>
      refine Nat.mul_pos ?_ (hscaled e)
      split <;> omega
    | negSucc e =>
      refine Nat.mul_pos ?_ Nat.one_pos
      split <;> omega
  unfold digits at h ⊢
  cases hfound : (range 17).findSome? fun k => b.interval.withDigits? (k + 1) with
  | none => simp only [hfound]
  | some found =>
    obtain ⟨k, -, hk⟩ := exists_of_findSome?_eq_some hfound
    simp only [hfound] at h
    exact absurd h (dropZeros_ne_zero (Interval.withDigits?_ne_zero hlow hk) found.2)

theorem toList_padZeros (width n : Nat) :
    (padZeros width n).toList = replicate (width - (toDigits 10 n).length) '0' ++ toDigits 10 n := by
  have hlength : (toString n).length = (toDigits 10 n).length := by
    exact congrArg length toList_repr
  rw [padZeros, String.toList_append, String.toList_ofList, hlength]
  exact congrArg _ toList_repr

theorem isAsciiDigit_of_mem_padZeros {width : Nat} (hc : c ∈ (padZeros width n).toList) : isAsciiDigit c := by
  rw [toList_padZeros] at hc
  rcases mem_append.1 hc with hc | hc
  · rw [eq_of_mem_replicate hc]
    rfl
  · exact isAsciiDigit_of_mem_toDigits hc

theorem toList_padZeros_ne_nil (width n : Nat) : (padZeros width n).toList ≠ [] := by
  rw [toList_padZeros]
  simp [toDigits_ne_nil]

/-! Each of the forms in which digits are written is a real number. -/

theorem exists_numberText_scaled {k : Nat} (hzero : d = 0 → k = 0) :
    ∃ t : NumberText, t.IsReal ∧ t.chars = toDigits 10 d ++ replicate k '0' ++ ['.', '0'] := by
  have hdigits : ∀ c ∈ toDigits 10 d ++ replicate k '0', isAsciiDigit c := by
    intro c hc
    rcases mem_append.1 hc with hc | hc
    · exact isAsciiDigit_of_mem_toDigits hc
    · rw [eq_of_mem_replicate hc]
      rfl
  -- a zero is not followed by further zeros
  have hleading : (toDigits 10 d ++ replicate k '0').head? = some '0' →
      toDigits 10 d ++ replicate k '0' = ['0'] := by
    intro h
    rw [head?_append_of_ne_nil _ toDigits_ne_nil] at h
    obtain rfl : d = 0 := head?_toDigits h
    obtain rfl : k = 0 := hzero rfl
    rfl
  refine ⟨⟨_, ['0'], none, hdigits, by simp [toDigits_ne_nil], hleading, by simp [isAsciiDigit], by simp⟩,
    .inl (by simp), ?_⟩
  simp [chars, fractionChars, exponentChars]

theorem exists_numberText_pointed (hd : d ≠ 0) (hn : n ≠ 0) (hlength : n < (toDigits 10 d).length) :
    ∃ t : NumberText, t.IsReal ∧ t.chars = (toDigits 10 d).take n ++ '.' :: (toDigits 10 d).drop n := by
  have hleading : ((toDigits 10 d).take n).head? ≠ some '0' := by
    rw [head?_take, if_neg hn]
    exact fun h => hd (head?_toDigits h)
  have htake : (toDigits 10 d).take n ≠ [] := by
    rw [Ne, take_eq_nil_iff, not_or]
    exact ⟨hn, toDigits_ne_nil⟩
  have hdrop : (toDigits 10 d).drop n ≠ [] := by
    rw [Ne, drop_eq_nil_iff]
    omega
  refine ⟨⟨_, _, none, fun c hc => isAsciiDigit_of_mem_toDigits (mem_of_mem_take hc), htake,
    fun h => absurd h hleading, fun c hc => isAsciiDigit_of_mem_toDigits (mem_of_mem_drop hc), by simp⟩,
    .inl hdrop, ?_⟩
  simp [chars, fractionChars, exponentChars, hdrop]

theorem exists_numberText_fraction {ds : List Char} (hds : ∀ c ∈ ds, isAsciiDigit c)
    (hne : ds ≠ []) : ∃ t : NumberText, t.IsReal ∧ t.chars = '0' :: '.' :: ds := by
  refine ⟨⟨['0'], ds, none, by simp [isAsciiDigit], by simp, fun _ => rfl, hds, by simp⟩, .inl hne, ?_⟩
  simp [chars, fractionChars, exponentChars, hne]

theorem exists_numberText_positional (hzero : d = 0 → e = 0) :
    ∃ t : NumberText, t.IsReal ∧ t.chars = (positional d e).toList := by
  have hdigits : (toString d).toList = toDigits 10 d := toList_repr
  have hlength : (toString d).length = (toDigits 10 d).length := by rw [← hdigits, String.length_toList]
  cases e with
  | ofNat k =>
    obtain ⟨t, hreal, ht⟩ := exists_numberText_scaled fun hd => Int.ofNat.inj (hzero hd)
    exact ⟨t, hreal, by simp [ht, positional]⟩
  | negSucc k =>
    have hd : d ≠ 0 := by
      intro hd
      cases hzero hd
    unfold positional
    by_cases hplaces : k + 1 < (toString d).length
    · simp only [hplaces]
      obtain ⟨t, hreal, ht⟩ := exists_numberText_pointed hd (n := (toDigits 10 d).length - (k + 1)) (by omega)
        (by omega)
      refine ⟨t, hreal, ?_⟩
      rw [ht, hlength]
      simp
    · simp only [hplaces, if_false]
      obtain ⟨t, hreal, ht⟩ := exists_numberText_fraction (fun c => isAsciiDigit_of_mem_padZeros)
        (toList_padZeros_ne_nil (k + 1) d)
      exact ⟨t, hreal, by rw [ht, String.toList_append]; rfl⟩

theorem exists_numberText_scientific (d : Nat) (magnitude : Int) :
    ∃ t : NumberText, t.IsReal ∧ t.chars = (scientific d magnitude).toList := by
  have hdigits : (toString d).toList = toDigits 10 d := toList_repr
  have hpower : ∀ c ∈ (padZeros 2 magnitude.natAbs).toList, isAsciiDigit c := fun c hc =>
    isAsciiDigit_of_mem_padZeros hc
  have hne := toList_padZeros_ne_nil 2 magnitude.natAbs
  unfold scientific
  rw [hdigits]
  generalize padZeros 2 magnitude.natAbs = power at hpower hne
  cases hcs : toDigits 10 d with
  | nil => exact absurd hcs toDigits_ne_nil
  | cons c cs =>
    have hall : ∀ c' ∈ c :: cs, isAsciiDigit c' := fun c' hc' => isAsciiDigit_of_mem_toDigits (hcs ▸ hc')
    refine ⟨⟨[c], cs, some (decide (magnitude < 0), power.toList), fun d hd => hall d ?_, by simp,
      fun h => ?_, fun d hd => hall d (by simp [hd]), ?_⟩, .inr (by simp), ?_⟩
    · rw [mem_singleton.1 hd]
      exact mem_cons_self
    · rw [Option.some.inj h]
    · rintro _ ⟨⟩
      exact ⟨hpower, hne⟩
    · have hfirst : c :: fractionChars cs = pointedFirst (c :: cs) := by
        cases cs <;> rfl
      have hsign : (if magnitude < 0 then "-" else "+").toList = [if decide (magnitude < 0) then '-' else '+'] := by
        by_cases hm : magnitude < 0 <;> simp [hm]
      simp only [chars, exponentChars, ← hfirst, String.toList_append, hsign]
      simp

theorem exists_numberText_writeDigits (hzero : d = 0 → e = 0) :
    ∃ t : NumberText, t.IsReal ∧ t.chars = (writeDigits d e).toList := by
  unfold writeDigits
  by_cases hplain : (decide (-4 ≤ e + (toString d).length - 1) && decide (e + (toString d).length - 1 < 16))
  · simp only [hplain]
    exact exists_numberText_positional hzero
  · simp only [hplain]
    exact exists_numberText_scientific d _

theorem exists_numberText_shortest {x : Float} (hparts : parts x = .finite b) :
    ∃ t : NumberText, t.IsReal ∧ (shortest x).toList = signChars b.negative ++ t.chars := by
  have hsign : (if b.negative then "-" else "").toList = signChars b.negative := by
    cases b.negative <;> rfl
  unfold shortest
  rw [hparts]
  by_cases hm : b.mantissa = 0
  · obtain ⟨t, hreal, ht⟩ := exists_numberText_scaled (d := 0) fun _ => rfl
    refine ⟨t, hreal, ?_⟩
    simp only [hm, beq_self_eq_true, if_true, String.toList_append, hsign, ht]
    rfl
  · obtain ⟨t, hreal, ht⟩ := exists_numberText_writeDigits (e := b.digits.2) fun hd => by
      rw [Binary.digits_eq_zero hm hd]
    refine ⟨t, hreal, ?_⟩
    simp only [beq_iff_eq, hm, if_false, String.toList_append, hsign, ht]

end Decimal

namespace Json

def realRead (x : Float) : Float :=
  match valueGo 1 (realText x).toList with
  | some (.real y, _) => y
  | _ => x

theorem valueGo_real (x : Float) {rest : List Char} (hrest : Stops rest) (fuel : Nat) :
    valueGo (fuel + 1) ((realText x).toList ++ rest) = some (.real (realRead x), rest) := by
  have hread : ∃ y, ∀ (fuel : Nat) {rest : List Char}, Stops rest →
      valueGo (fuel + 1) ((realText x).toList ++ rest) = some (.real y, rest) := by
    unfold realText
    cases hparts : Decimal.parts x with
    | notANumber => exact ⟨0.0 / 0.0, fun fuel rest _ => by simp [valueGo]⟩
    | infinite negative =>
      cases negative with
      | true => exact ⟨-1.0 / 0.0, fun fuel rest _ => by simp [valueGo]⟩
      | false => exact ⟨1.0 / 0.0, fun fuel rest _ => by simp [valueGo]⟩
    | finite b =>
      obtain ⟨t, hreal, ht⟩ := Decimal.exists_numberText_shortest hparts
      obtain ⟨y, hy⟩ := NumberText.exists_value_of_isReal hreal b.negative
      refine ⟨y, fun fuel rest hrest => ?_⟩
      rw [← hy, ← valueGo_number t b.negative hrest fuel, ← ht]
  obtain ⟨y, hy⟩ := hread
  have hread : realRead x = y := by
    have h := hy 0 stops_nil
    rw [append_nil] at h
    rw [realRead, h]
  rw [hread]
  exact hy fuel hrest

end Json

end ParallelPatterns
