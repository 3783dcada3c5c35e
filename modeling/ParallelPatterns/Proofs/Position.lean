import Mathlib.Data.String.Basic
import ParallelPatterns.Dataflow.Variables

/-!
# The order of written positions

Positions are written `file:line`, and are compared as texts. A position that stands between two
positions of a file is one of that file, and its digits stand between the digits of the two lines;
but the line itself lies between the two lines only if its number of digits does, too. In numbers,
the order of digits compares the shorter number with as many leading digits of the longer one
(`DigitsBefore`).
-/

namespace ParallelPatterns


open Nat
open List

variable {as bs cs : List Char} {n m file line otherFile : Nat}

/-- The number of digits of a number. -/
def digitCount (n : Nat) : Nat := (Nat.toDigits 10 n).length

/-! ## Texts, compared character by character -/

theorem cons_le_cons_iff_first {a b : Char} : a :: as ≤ b :: bs ↔ a < b ∨ a = b ∧ as ≤ bs := by
  rw [le_iff_lt_or_eq, le_iff_lt_or_eq, cons_lt_cons_iff, cons.injEq]
  tauto

theorem append_le_append_of_le (h : as ≤ bs) : ∀ start : List Char, start ++ as ≤ start ++ bs
  | [] => h
  | c :: start => cons_le_cons c (append_le_append_of_le h start)

theorem exists_append_of_between {start : List Char} (has : start ++ as ≤ bs)
    (hcs : bs ≤ start ++ cs) : ∃ rest, bs = start ++ rest ∧ as ≤ rest ∧ rest ≤ cs := by
  induction start generalizing bs with
  | nil => exact ⟨bs, rfl, has, hcs⟩
  | cons c start ih =>
    cases bs with
    | nil => exact absurd (nil_lt_cons c (start ++ as)) (not_lt_of_ge has)
    | cons b bs =>
      rw [cons_append, cons_le_cons_iff_first] at has hcs
      -- the first character is held from both sides
      obtain rfl : b = c := by
        rcases has with hlt | ⟨heq, -⟩
        · rcases hcs with hgt | ⟨heq, -⟩
          · exact absurd hlt (lt_asymm hgt)
          · exact heq
        · exact heq.symm
      have has : start ++ as ≤ bs := has.elim (fun h => absurd h (lt_irrefl _)) And.right
      have hcs : bs ≤ start ++ cs := hcs.elim (fun h => absurd h (lt_irrefl _)) And.right
      obtain ⟨rest, rfl, hrest⟩ := ih has hcs
      exact ⟨rest, rfl, hrest⟩

/-! ## Numbers and their digits -/

theorem digitCount_pos (n : Nat) : 0 < digitCount n := length_toDigits_pos

theorem digitCount_le_iff {k : Nat} (hk : 0 < k) : digitCount n ≤ k ↔ n < 10 ^ k :=
  length_toDigits_le_iff (by decide) hk

theorem digitCount_mono (h : m ≤ n) : digitCount m ≤ digitCount n := by
  rw [digitCount_le_iff (digitCount_pos n)]
  exact lt_of_le_of_lt h ((digitCount_le_iff (digitCount_pos n)).1 (le_refl _))

theorem lt_of_digitCount_lt (h : digitCount m < digitCount n) : m < n := by
  have hm : m < 10 ^ digitCount m := (digitCount_le_iff (digitCount_pos m)).1 (le_refl _)
  have hn : ¬ n < 10 ^ digitCount m := by
    rw [← digitCount_le_iff (digitCount_pos m)]
    omega
  omega

theorem isDigit_iff {c : Char} : c.isDigit ↔ 48 ≤ c.toNat ∧ c.toNat ≤ 57 := Char.isDigit_iff_toNat

theorem ofDigitChars_lt (h : ∀ c ∈ cs, c.isDigit) : ofDigitChars 10 cs 0 < 10 ^ cs.length := by
  induction cs with
  | nil => simp
  | cons c cs ih =>
    have hrest := ih fun d hd => h d (by simp [hd])
    have hc := isDigit_iff.1 (h c (by simp))
    have hdigit : c.toNat - '0'.toNat ≤ 9 := by
      have : '0'.toNat = 48 := rfl
      omega
    rw [ofDigitChars_cons, ofDigitChars_eq_ofDigitChars_zero, length_cons]
    calc 10 ^ cs.length * (10 * 0 + (c.toNat - '0'.toNat)) + ofDigitChars 10 cs 0
        ≤ 10 ^ cs.length * 9 + ofDigitChars 10 cs 0 :=
          Nat.add_le_add_right (Nat.mul_le_mul_left _ (by omega)) _
      _ < 10 ^ cs.length * 9 + 10 ^ cs.length := by omega

theorem ofDigitChars_le (has : ∀ c ∈ as, c.isDigit)
    (hbs : ∀ c ∈ bs, c.isDigit) (hlength : as.length = bs.length) (h : as ≤ bs) :
    ofDigitChars 10 as 0 ≤ ofDigitChars 10 bs 0 := by
  induction as generalizing bs with
  | nil => simp
  | cons a as ih =>
    cases bs with
    | nil => simp at hlength
    | cons b bs =>
      have hrest : as.length = bs.length := by simpa using hlength
      have ha := isDigit_iff.1 (has a (by simp))
      have hzero : '0'.toNat = 48 := rfl
      rw [ofDigitChars_cons, ofDigitChars_cons, ofDigitChars_eq_ofDigitChars_zero,
        ofDigitChars_eq_ofDigitChars_zero (l := bs), hrest]
      rcases cons_le_cons_iff_first.1 h with hlt | ⟨rfl, hle⟩
      · -- the first digit decides, since the others together are less than one unit of it
        have hlt : a.toNat < b.toNat := hlt
        have hunit : ofDigitChars 10 as 0 < 10 ^ bs.length := by
          rw [← hrest]
          exact ofDigitChars_lt fun c hc => has c (by simp [hc])
        have hfirst : 10 ^ bs.length * (10 * 0 + (a.toNat - '0'.toNat)) + 10 ^ bs.length ≤
            10 ^ bs.length * (10 * 0 + (b.toNat - '0'.toNat)) := by
          rw [← mul_succ]
          exact mul_le_mul_left _ (by omega)
        omega
      · have := ih (fun c hc => has c (by simp [hc])) (fun c hc => hbs c (by simp [hc])) hrest hle
        omega

theorem isDigit_of_mem_toDigits {c : Char} (hc : c ∈ toDigits 10 n) : c.isDigit :=
  Nat.isDigit_of_mem_toDigits (by decide) (by decide) hc

theorem toDigits_injective (h : toDigits 10 m = toDigits 10 n) : m = n := by
  rw [← ofDigitChars_ten_toDigits (n := m), h, ofDigitChars_ten_toDigits]

theorem le_iff_digitCount_le (h : toDigits 10 m ≤ toDigits 10 n) : m ≤ n ↔ digitCount m ≤ digitCount n := by
  refine ⟨digitCount_mono, fun hcount => ?_⟩
  rcases lt_or_eq_of_le hcount with hlt | heq
  · exact le_of_lt (lt_of_digitCount_lt hlt)
  · have hvalues := ofDigitChars_le (fun _ => isDigit_of_mem_toDigits) (fun _ => isDigit_of_mem_toDigits) heq h
    rwa [ofDigitChars_ten_toDigits, ofDigitChars_ten_toDigits] at hvalues

/-! ## The order of digits in numbers -/

theorem le_append_iff_of_length_eq (h : as.length = bs.length) (cs : List Char) : as ≤ bs ++ cs ↔ as ≤ bs := by
  induction as generalizing bs with
  | nil => exact iff_of_true (not_lt.1 (not_lt_nil _)) (not_lt.1 (not_lt_nil _))
  | cons a as ih =>
    cases bs with
    | nil => simp at h
    | cons b bs =>
      have hrest : as.length = bs.length := by simpa using h
      rw [cons_append, cons_le_cons_iff_first, cons_le_cons_iff_first, ih hrest]

theorem append_le_iff_of_length_eq (h : as.length = bs.length) (hne : cs ≠ []) : as ++ cs ≤ bs ↔ as < bs := by
  induction as generalizing bs with
  | nil =>
    obtain rfl : bs = [] := length_eq_zero_iff.1 h.symm
    obtain ⟨c, cs, rfl⟩ := exists_cons_of_ne_nil hne
    exact iff_of_false (not_le_of_gt (nil_lt_cons c cs)) (lt_irrefl [])
  | cons a as ih =>
    cases bs with
    | nil => simp at h
    | cons b bs =>
      have hrest : as.length = bs.length := by simpa using h
      rw [cons_append, cons_le_cons_iff_first, cons_lt_cons_iff, ih hrest]

theorem exists_toDigits_append {k : Nat} (h : k < digitCount n) :
    ∃ rest, rest.length = k ∧ toDigits 10 n = toDigits 10 (n / 10 ^ k) ++ rest := by
  induction k generalizing n with
  | zero => exact ⟨[], rfl, by simp⟩
  | succ k ih =>
    have hten : 10 ≤ n := by
      have hlong : ¬ digitCount n ≤ 1 := by omega
      rw [digitCount_le_iff (by decide)] at hlong
      omega
    have hlast := toDigits_of_base_le (by decide) hten
    have hcount : k < digitCount (n / 10) := by
      have hlength := congrArg length hlast
      rw [length_append, length_singleton] at hlength
      unfold digitCount at h ⊢
      omega
    obtain ⟨rest, hrest, hdigits⟩ := ih hcount
    refine ⟨rest ++ [(n % 10).digitChar], by simp [hrest], ?_⟩
    rw [hlast, hdigits, Nat.div_div_eq_div_mul, Nat.mul_comm, ← Nat.pow_succ, append_assoc]

theorem exists_leadingDigits (hle : digitCount m ≤ digitCount n) :
    ∃ rest, rest.length = digitCount n - digitCount m ∧
      digitCount (n / 10 ^ (digitCount n - digitCount m)) = digitCount m ∧
      toDigits 10 n = toDigits 10 (n / 10 ^ (digitCount n - digitCount m)) ++ rest := by
  have hm := digitCount_pos m
  obtain ⟨rest, hrest, hdigits⟩ := exists_toDigits_append (n := n) (k := digitCount n - digitCount m) (by omega)
  refine ⟨rest, hrest, ?_, hdigits⟩
  have hlength := congrArg length hdigits
  rw [length_append, hrest] at hlength
  unfold digitCount at hle hlength ⊢
  omega

theorem toDigits_le_iff_of_digitCount_eq (h : digitCount m = digitCount n) :
    toDigits 10 m ≤ toDigits 10 n ↔ m ≤ n := by
  constructor
  · intro hle
    exact (le_iff_digitCount_le hle).2 (le_of_eq h)
  · intro hle
    rcases le_total (toDigits 10 m) (toDigits 10 n) with hdigits | hdigits
    · exact hdigits
    · have hge := (le_iff_digitCount_le hdigits).2 (le_of_eq h.symm)
      rw [le_antisymm hle hge]

/-- The digits of the first number stand before those of the second, or are the same: the shorter
number is compared with as many leading digits of the longer one. -/
def DigitsBefore (m n : Nat) : Prop :=
  digitCount m ≤ digitCount n ∧ m ≤ n / 10 ^ (digitCount n - digitCount m) ∨
    digitCount n < digitCount m ∧ m / 10 ^ (digitCount m - digitCount n) < n

instance (m n : Nat) : Decidable (DigitsBefore m n) := inferInstanceAs (Decidable (_ ∧ _ ∨ _ ∧ _))

theorem toDigits_le_iff : Nat.toDigits 10 m ≤ Nat.toDigits 10 n ↔ DigitsBefore m n := by
  unfold DigitsBefore
  by_cases hle : digitCount m ≤ digitCount n
  · simp only [hle, Nat.not_lt.2 hle, true_and, false_and, or_false]
    obtain ⟨rest, -, hcount, hdigits⟩ := exists_leadingDigits hle
    rw [hdigits, le_append_iff_of_length_eq hcount.symm, toDigits_le_iff_of_digitCount_eq hcount.symm]
  · simp only [hle, Nat.lt_of_not_le hle, true_and, false_and, false_or]
    obtain ⟨rest, hrest, hcount, hdigits⟩ := exists_leadingDigits (Nat.le_of_not_le hle)
    have hne : rest ≠ [] := by
      rintro rfl
      rw [length_nil] at hrest
      omega
    rw [hdigits, append_le_iff_of_length_eq hcount hne, lt_iff_not_ge,
      toDigits_le_iff_of_digitCount_eq hcount.symm, Nat.not_le]

/-! ## Written positions -/

theorem toList_position (file line : Nat) :
    (position file line).toList = toDigits 10 file ++ ':' :: toDigits 10 line := by
  have htext : position file line = file.repr ++ ":" ++ line.repr := rfl
  rw [htext, String.toList_append, String.toList_append]
  simp

theorem colon_notMem_toDigits (n : Nat) : ':' ∉ toDigits 10 n := by
  intro hn
  exact absurd (isDigit_of_mem_toDigits hn) (by decide)

theorem eq_of_digits_colon {rest : List Char}
    (h : toDigits 10 otherFile ++ ':' :: toDigits 10 line = toDigits 10 file ++ ':' :: rest) :
    otherFile = file ∧ toDigits 10 line = rest := by
  obtain ⟨hfile, -, hline⟩ :=
    (append_cons_inj_of_notMem (colon_notMem_toDigits otherFile) (colon_notMem_toDigits line)).1 h
  exact ⟨toDigits_injective hfile, hline⟩

theorem position_injective {otherLine : Nat}
    (h : position otherFile otherLine = position file line) : otherFile = file ∧ otherLine = line := by
  have htext := congrArg String.toList h
  rw [toList_position, toList_position] at htext
  obtain ⟨hfile, hline⟩ := eq_of_digits_colon htext
  exact ⟨hfile, toDigits_injective hline⟩

theorem definedBetween_iff {line first last : String} :
    Graph.definedBetween line first last ↔ first.toList ≤ line.toList ∧ line.toList ≤ last.toList := by
  rw [Graph.definedBetween, Bool.and_eq_true, decide_eq_true_iff, decide_eq_true_iff]
  exact and_congr String.le_iff_toList_le String.le_iff_toList_le

theorem definedBetween_position_iff {first last : Nat} :
    Graph.definedBetween (position otherFile line) (position file first) (position file last) ↔
      otherFile = file ∧ toDigits 10 first ≤ toDigits 10 line ∧
        toDigits 10 line ≤ toDigits 10 last := by
  rw [definedBetween_iff, toList_position, toList_position, toList_position]
  have hcons : ∀ xs : List Char,
      toDigits 10 file ++ ':' :: xs = (toDigits 10 file ++ [':']) ++ xs := by simp
  constructor
  · rintro ⟨hfirst, hlast⟩
    rw [hcons] at hfirst hlast
    obtain ⟨rest, hrest, hbetween⟩ := exists_append_of_between hfirst hlast
    rw [← hcons] at hrest
    obtain ⟨rfl, rfl⟩ := eq_of_digits_colon hrest
    exact ⟨rfl, hbetween⟩
  · rintro ⟨rfl, hfirst, hlast⟩
    exact ⟨append_le_append_of_le (cons_le_cons _ hfirst) _,
      append_le_append_of_le (cons_le_cons _ hlast) _⟩

theorem Node.exists_nat {n : Node} (hfile : 0 ≤ n.file) (hstart : 0 ≤ n.startLine) (hfinish : 0 ≤ n.endLine) :
    ∃ file first last : Nat, n.file = file ∧ n.startLine = first ∧ n.endLine = last :=
  ⟨_, _, _, (Int.toNat_of_nonneg hfile).symm, (Int.toNat_of_nonneg hstart).symm, (Int.toNat_of_nonneg hfinish).symm⟩

end ParallelPatterns
