import Mathlib.Data.List.Infix
import ParallelPatterns.Input.ReductionFile

/-!
# Brackets in an index

The index of an array is the text up to the bracket that closes it. The brackets inside of the index
close one another, and there is no such bracket only if no part of the text from its start on closes
more brackets than it opens.
-/

namespace ParallelPatterns.ReductionFile

open List

variable {depth : Nat} {acc cs t : List Char} {c : Char}

/-- No part of a text from its start on closes more brackets than are open, `depth` of them before
the text. -/
def KeepsOpen (depth : Nat) (cs : List Char) : Prop := ∀ p, p <+: cs → p.count ']' ≤ p.count '[' + depth

theorem keepsOpen_cons_iff :
    KeepsOpen depth (c :: cs) ↔ ∀ p, p <+: cs → (c :: p).count ']' ≤ (c :: p).count '[' + depth := by
  refine ⟨fun h p hp => h _ (cons_prefix_cons.2 ⟨rfl, hp⟩), fun h p hp => ?_⟩
  rcases prefix_cons_iff.1 hp with rfl | ⟨q, rfl, hq⟩
  · exact Nat.zero_le _
  · exact h q hq

theorem keepsOpen_open : KeepsOpen depth ('[' :: cs) ↔ KeepsOpen (depth + 1) cs := by
  rw [keepsOpen_cons_iff, KeepsOpen]
  simp [Nat.add_right_comm, Nat.add_assoc]

theorem keepsOpen_close : KeepsOpen (depth + 1) (']' :: cs) ↔ KeepsOpen depth cs := by
  rw [keepsOpen_cons_iff, KeepsOpen]
  simp [← Nat.add_assoc]

theorem not_keepsOpen_close : ¬KeepsOpen 0 (']' :: cs) := fun h => by
  simpa using h [']'] (by simp)

theorem keepsOpen_plain (hopen : c ≠ '[') (hclose : c ≠ ']') : KeepsOpen depth (c :: cs) ↔ KeepsOpen depth cs := by
  rw [keepsOpen_cons_iff, KeepsOpen]
  simp [hopen, hclose]

theorem enclosedGo_eq_none_iff : enclosedGo (depth + 1) acc cs = none ↔ KeepsOpen depth cs := by
  induction cs generalizing depth acc with
  | nil => simp [enclosedGo, KeepsOpen]
  | cons c cs ih =>
    rw [enclosedGo]
    split
    · next hc => rw [ih, hc, keepsOpen_open]
    · next hopen =>
      split
      · next hc =>
        subst hc
        cases depth with
        | zero => simp [not_keepsOpen_close]
        | succ depth => simp [keepsOpen_close, ih]
      · next hclose => rw [ih, keepsOpen_plain hopen hclose]

theorem enclosedGo_append (hopen : KeepsOpen depth cs) (hend : cs.count ']' = cs.count '[' + depth)
    (rest : List Char) :
    enclosedGo (depth + 1) acc (cs ++ ']' :: rest) = some (acc.reverse ++ cs) := by
  induction cs generalizing depth acc with
  | nil => simp_all [enclosedGo]
  | cons c cs ih =>
    rw [cons_append, enclosedGo]
    split
    · next hc =>
      subst hc
      simp [ih (keepsOpen_open.1 hopen) (by simp at hend; omega)]
    · next hc =>
      split
      · next hc =>
        subst hc
        cases depth with
        | zero => exact absurd hopen not_keepsOpen_close
        | succ depth => simp [ih (keepsOpen_close.1 hopen) (by simp at hend; omega)]
      · next hclose => simp [ih ((keepsOpen_plain hc hclose).1 hopen) (by simpa [hc, hclose] using hend)]

/-- The text before the bracket that closes an index is the index, and the index is without an end
only if it keeps the bracket before it open. -/
theorem enclosed_closes (s : String) :
    (KeepsOpen 0 s.toList → s.toList.count ']' = s.toList.count '[' → ∀ rest,
      enclosed (s ++ "]" ++ rest) = some s) ∧ (enclosed s = none ↔ KeepsOpen 0 s.toList) := by
  refine ⟨fun hopen hend rest => ?_, ?_⟩
  · simp [enclosed, enclosedGo_append hopen hend]
  · rw [enclosed, Option.map_eq_none_iff, enclosedGo_eq_none_iff]

theorem enclosed_closes_nested :
    KeepsOpen 0 "i[j][k]".toList ∧ enclosed ("i[j][k]" ++ "]" ++ " = x[k]") = some "i[j][k]" :=
  have hopen := (enclosed_closes "i[j][k]").2.1 (by decide +kernel)
  ⟨hopen, (enclosed_closes "i[j][k]").1 hopen (by decide) " = x[k]"⟩

end ParallelPatterns.ReductionFile
