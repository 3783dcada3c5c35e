import Mathlib.Data.Int.Order.Basic
import Mathlib.Data.List.Nodup
import Mathlib.Data.List.Pairwise
import Mathlib.Data.List.Perm.Basic
import ParallelPatterns.Task.LoopBody

/-!
# Critical lines

Ranges of lines are joined in pairs until none follows another directly. A step takes two ranges out
and puts their union in, so at every time the ranges share no line and hold the same lines together.
When no step is left, they are the longest runs of these lines.
-/

namespace ParallelPatterns

open List

section

variable {α : Type} {follows : α → α → Bool} {join : α → α → α} {xs ys : List α}

theorem perm_of_joinPair? (h : joinPair? follows join xs = some ys) :
    ∃ a b rest, follows a b ∧ xs ~ a :: b :: rest ∧ ys ~ join a b :: rest := by
  obtain ⟨a, b, i, j, ha, hb, hne, hfollows, rfl⟩ := exists_of_joinPair? h
  obtain ⟨hi, rfl⟩ := List.getElem?_eq_some_iff.1 ha
  obtain ⟨hj, rfl⟩ := List.getElem?_eq_some_iff.1 hb
  obtain ⟨l, r, hsplit⟩ := append_of_mem (mem_eraseIdx_iff_getElem.2 ⟨j, hj, hne.symm, rfl⟩)
  have hrest : xs.eraseIdx i ~ xs[j] :: (l ++ r) := hsplit ▸ perm_middle
  refine ⟨xs[i], xs[j], l ++ r, hfollows, (getElem_cons_eraseIdx_perm hi).symm.trans (hrest.cons _), ?_⟩
  -- the second element stands before the rest on both sides
  have hset : j < (xs.set i (join xs[i] xs[j])).length := by simpa using hj
  have herase := getElem_cons_eraseIdx_perm hset
  rw [getElem_set_of_ne hne] at herase
  refine Perm.cons_inv (a := xs[j]) ?_
  calc
    xs[j] :: (xs.set i (join xs[i] xs[j])).eraseIdx j ~ xs.set i (join xs[i] xs[j]) := herase
    _ ~ join xs[i] xs[j] :: xs.eraseIdx i := set_perm_cons_eraseIdx hi _
    _ ~ join xs[i] xs[j] :: xs[j] :: (l ++ r) := hrest.cons _
    _ ~ xs[j] :: join xs[i] xs[j] :: (l ++ r) := .swap ..

theorem not_follows_of_joinPair? (h : joinPair? follows join xs = none) {a b : α} (ha : a ∈ xs)
    (hb : b ∈ xs) (hne : a ≠ b) : ¬follows a b := by
  obtain ⟨i, hi⟩ := getElem?_of_mem ha
  obtain ⟨j, hj⟩ := getElem?_of_mem hb
  have hnone := findSome?_eq_none_iff.1 h (a, i) (mk_mem_zipIdx_iff_getElem?.2 hi)
  rw [Option.map_eq_none_iff, find?_eq_none] at hnone
  have hij : i ≠ j := by
    rintro rfl
    exact hne (Option.some.inj (hi.symm.trans hj))
  simpa [hij] using hnone (b, j) (mk_mem_zipIdx_iff_getElem?.2 hj)

variable (follows join) in
/-- What does not depend on the order and is kept by a step holds at the end, when no step is
left. -/
theorem joinPairs_induction {P : List α → Prop} (hperm : ∀ {xs ys}, xs ~ ys → P xs → P ys)
    (hstep : ∀ a b rest, follows a b → P (a :: b :: rest) → P (join a b :: rest)) (h : P xs) :
    P (joinPairs follows join xs) ∧ joinPair? follows join (joinPairs follows join xs) = none := by
  fun_induction joinPairs follows join xs with
  | case1 xs ys hjoin _ ih =>
    obtain ⟨a, b, rest, hfollows, hxs, hys⟩ := perm_of_joinPair? hjoin
    exact ih (hperm hys.symm (hstep a b rest hfollows (hperm hxs h)))
  | case2 xs hjoin => exact ⟨h, hjoin⟩

end

variable {lines : Int → Prop} {r : Int × Int} {rs : List (Int × Int)}

/-- A range of lines that cannot be made longer. -/
def IsRun (lines : Int → Prop) (r : Int × Int) : Prop :=
  r.1 ≤ r.2 ∧ (∀ l, r.1 ≤ l → l ≤ r.2 → lines l) ∧ ¬lines (r.1 - 1) ∧ ¬lines (r.2 + 1)

def Apart (r s : Int × Int) : Prop := r.2 < s.1 ∨ s.2 < r.1

instance : Std.Symm Apart := ⟨fun _ _ => Or.symm⟩

/-- The ranges share no line and hold the given lines together. -/
structure Partitions (lines : Int → Prop) (rs : List (Int × Int)) : Prop where
  proper : ∀ r ∈ rs, r.1 ≤ r.2
  apart : rs.Pairwise Apart
  covers : ∀ l, lines l ↔ ∃ r ∈ rs, r.1 ≤ l ∧ l ≤ r.2

namespace Partitions

theorem perm {rs' : List (Int × Int)} (hperm : rs ~ rs') (h : Partitions lines rs) : Partitions lines rs' := by
  obtain ⟨hproper, hapart, hcovers⟩ := h
  simp only [hperm.mem_iff] at hproper hcovers
  exact ⟨hproper, hapart.perm hperm Or.symm, hcovers⟩

theorem join {a b : Int × Int} (hfollows : a.2 + 1 = b.1) (h : Partitions lines (a :: b :: rs)) :
    Partitions lines ((a.1, b.2) :: rs) := by
  obtain ⟨hproper, hapart, hcovers⟩ := h
  simp only [forall_mem_cons, exists_mem_cons_iff, pairwise_cons] at hproper hapart hcovers
  refine ⟨forall_mem_cons.2 ⟨?_, hproper.2.2⟩, pairwise_cons.2 ⟨fun s hs => ?_, hapart.2.2⟩, fun l => ?_⟩
  · omega
  · -- a range of the rest is on the one side of both or on the other
    have hs' := hproper.2.2 s hs
    rcases hapart.1.2 s hs, hapart.2.1 s hs with ⟨ha | ha, hb | hb⟩
    · exact .inl hb
    · omega
    · omega
    · exact .inr ha
  · rw [hcovers, exists_mem_cons_iff, ← or_assoc]
    refine or_congr_left ?_
    omega

theorem nodup (h : Partitions lines rs) : rs.Nodup := by
  refine h.apart.imp_of_mem fun {r s} hr _ hapart heq => ?_
  have := h.proper r hr
  subst heq
  rcases hapart with hapart | hapart <;> omega

theorem mem_iff_isRun (h : Partitions lines rs) (hend : ∀ a ∈ rs, ∀ b ∈ rs, a.2 + 1 ≠ b.1) :
    r ∈ rs ↔ IsRun lines r := by
  have hrun : ∀ r ∈ rs, IsRun lines r := by
    intro r hr
    have hproper := h.proper r hr
    have hapart : ∀ s ∈ rs, s = r ∨ Apart s r := fun s hs => or_iff_not_imp_left.2 (h.apart.forall hs hr)
    refine ⟨hproper, fun l hl hl' => (h.covers l).2 ⟨r, hr, hl, hl'⟩, fun hbefore => ?_, fun hbehind => ?_⟩
    · obtain ⟨s, hs, hl, hl'⟩ := (h.covers _).1 hbefore
      rcases hapart s hs with rfl | hlow | hhigh
      · omega
      · exact hend s hs r hr (by omega)
      · omega
    · obtain ⟨s, hs, hl, hl'⟩ := (h.covers _).1 hbehind
      rcases hapart s hs with rfl | hlow | hhigh
      · omega
      · omega
      · exact hend r hr s hs (by omega)
  refine ⟨hrun r, fun ⟨hle, hlines, hbefore, hbehind⟩ => ?_⟩
  obtain ⟨s, hs, hfirst, hlast⟩ := (h.covers r.1).1 (hlines r.1 le_rfl hle)
  obtain ⟨-, hslines, -, hsbehind⟩ := hrun s hs
  have hstart : s.1 = r.1 := by
    by_contra hne
    exact hbefore (hslines _ (by omega) (by omega))
  have hstop : s.2 = r.2 := by
    rcases lt_trichotomy s.2 r.2 with hlt | heq | hgt
    · exact absurd (hlines (s.2 + 1) (by omega) (by omega)) hsbehind
    · exact heq
    · exact absurd (hslines (r.2 + 1) (by omega) (by omega)) hbehind
  exact Prod.ext hstart hstop ▸ hs

end Partitions

/-- Ranges of one line each divide the lines. -/
theorem partitions_singles {ls : List Int} (h : ls.Nodup) : Partitions (· ∈ ls) (ls.map fun l => (l, l)) := by
  refine ⟨by simp, pairwise_map.2 (h.imp fun hne => ?_), fun l => ?_⟩
  · exact lt_or_gt_of_ne hne
  · simp only [mem_map, exists_exists_and_eq_and, ← Int.le_antisymm_iff, exists_eq_right]

variable (first last : Int) (atomic : List Int)

theorem nodup_criticalLines : (criticalLines first last atomic).Nodup :=
  (nodup_range.map fun _ _ hij => Int.ofNat_inj.1 (Int.add_left_cancel hij)).filter _

theorem mem_criticalLines_iff {l : Int} :
    l ∈ criticalLines first last atomic ↔ (first ≤ l ∧ l ≤ last) ∧ l ∉ atomic := by
  rw [criticalLines, mem_filter, mem_map]
  refine and_congr ⟨?_, fun hl => ⟨(l - first).toNat, mem_range.2 (by omega), by omega⟩⟩ (by simp)
  rintro ⟨i, hi, rfl⟩
  have := mem_range.1 hi
  omega

/-- The critical ranges are the longest runs of lines that are not atomic, each of them once. So of
the lines from the first to the last one, those in the ranges are those that are not atomic. -/
theorem criticalRanges_runs :
    (criticalRanges first last atomic).Nodup ∧
      (∀ r, r ∈ criticalRanges first last atomic ↔ IsRun (fun l => (first ≤ l ∧ l ≤ last) ∧ l ∉ atomic) r) ∧
      ∀ l, (∃ r ∈ criticalRanges first last atomic, r.1 ≤ l ∧ l ≤ r.2) ↔ (first ≤ l ∧ l ≤ last) ∧ l ∉ atomic := by
  obtain ⟨hpart, hend⟩ := joinPairs_induction (fun a b : Int × Int => a.2 + 1 == b.1)
    (fun a b => (a.1, b.2)) .perm (fun a b rest hfollows => .join (by simpa using hfollows))
    (partitions_singles (nodup_criticalLines first last atomic))
  simp only [mem_criticalLines_iff] at hpart
  refine ⟨hpart.nodup, fun r => hpart.mem_iff_isRun fun a ha b hb heq => ?_, fun l => (hpart.covers l).symm⟩
  refine not_follows_of_joinPair? hend ha hb ?_ (by simpa using heq)
  rintro rfl
  have := hpart.proper a ha
  omega

end ParallelPatterns
