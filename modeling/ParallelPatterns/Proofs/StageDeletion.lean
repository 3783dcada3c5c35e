import Mathlib.Data.List.InsertIdx
import Mathlib.Data.List.Sort
import Mathlib.Tactic.Lift
import ParallelPatterns.Pattern.StageMatrix

/-!
# Deleting stages

Lines are deleted from the last to the first, so that the places before a deleted one stay where
they are. What is left are the stages at the other places and the dependences among them.
-/

namespace ParallelPatterns.StageMatrix

open List

variable {α : Type} {places : List Nat} {i : Int} {lines : List Int} {k : Nat}

/-- The places below a number that are not listed. -/
def others (k : Nat) (lines : List Int) : List Nat := (range k).filter fun j => !lines.contains (j : Int)

variable (depends : Nat → Nat → Int) (stage : Nat → α)

/-- The dependences among the stages at some places, and these stages. -/
def restrict (places : List Nat) : StageMatrix × List α :=
  (places.map fun i => places.map (depends i), places.map stage)

theorem deleteAt_map {β : Type} (hi : 0 ≤ i) (hlt : i < places.length) (f : Nat → β) :
    deleteAt (places.map f) i = .ok ((places.eraseIdx i.toNat).map f) := by
  have hplace : placeOf (places.map f).length i = .ok i.toNat := by
    simp [placeOf, hlt, Int.not_lt.2 hi]
  rw [deleteAt, hplace, ← eraseIdx_map]
  rfl

theorem deleteLine_restrict (hi : 0 ≤ i) (hlt : i < places.length) :
    deleteLine (restrict depends stage places) i = .ok (restrict depends stage (places.eraseIdx i.toNat)) := by
  have hrows : (((places.eraseIdx i.toNat).map fun i => places.map (depends i)).mapM fun row => deleteAt row i) =
      .ok ((places.eraseIdx i.toNat).map fun j => (places.eraseIdx i.toNat).map (depends j)) := by
    rw [mapM_map]
    simp only [Function.comp_def, deleteAt_map hi hlt]
    exact mapM_pure
  rw [deleteLine, restrict, deleteAt_map hi hlt, deleteAt_map hi hlt]
  simp only [bind, Except.bind, hrows]
  rfl

-- The places below the last line that is still to be deleted are those of the whole matrix.
theorem foldlM_deleteLine (hlines : lines.Pairwise (· > ·)) (hbelow : ∀ i ∈ lines, 0 ≤ i ∧ i < k)
    (rest : List Nat) : lines.foldlM deleteLine (restrict depends stage (range k ++ rest)) =
      .ok (restrict depends stage (others k lines ++ rest)) := by
  induction lines generalizing k rest with
  | nil => simp [pure, Except.pure, others]
  | cons i lines ih =>
    obtain ⟨hfirst, hrest⟩ := pairwise_cons.1 hlines
    obtain ⟨hi, hlt⟩ := hbelow i mem_cons_self
    lift i to Nat using hi
    obtain ⟨d, rfl⟩ : ∃ d, k = i + (d + 1) := ⟨k - i - 1, by omega⟩
    have hrange : range (i + (d + 1)) = range i ++ i :: range' (i + 1) d := by
      rw [range_eq_range', ← range'_append_1, Nat.zero_add, range'_succ, ← range_eq_range']
    have herase : (range (i + (d + 1)) ++ rest).eraseIdx i = range i ++ (range' (i + 1) d ++ rest) := by
      rw [hrange]
      simp [eraseIdx_append_of_length_le]
    have hothers : others (i + (d + 1)) (i :: lines) = others i lines ++ range' (i + 1) d := by
      rw [others, hrange, filter_append, filter_cons_of_neg (by simp)]
      congr 1
      · exact filter_congr fun j hj => by grind
      · exact filter_eq_self.2 fun j hj => by grind
    rw [foldlM_cons, deleteLine_restrict _ _ (by omega) (by simp; omega), Int.toNat_natCast, herase,
      hothers, append_assoc]
    exact ih hrest (fun j hj => ⟨(hbelow j (mem_cons_of_mem _ hj)).1, hfirst j hj⟩) _

/-- Deleting different lines of a square matrix leaves the dependences among the stages at the other
places. -/
theorem deleteLines_restrict {n : Nat} {lines : List Int} (hlines : lines.Nodup)
    (hbelow : ∀ i ∈ lines, 0 ≤ i ∧ i < n) :
    deleteLines ((range n).map fun i => (range n).map (depends i)) ((range n).map stage) lines =
      .ok (restrict depends stage (others n lines)) := by
  have hsorted : (lines.mergeSort fun a b => b ≤ a).SortedGT :=
    sortedGE_mergeSort.sortedGT_of_nodup ((mergeSort_perm ..).nodup_iff.2 hlines)
  have h := foldlM_deleteLine depends stage hsorted.pairwise (by simpa using hbelow)
  simpa [deleteLines, restrict, others] using h []

theorem deleteLines_restrict_middle : [(2 : Int), 0].Nodup ∧
    deleteLines [[0, 1, 2], [3, 4, 5], [6, 7, 8]] ["a", "b", "c"] [2, 0] = .ok ([[4]], ["b"]) :=
  have hlines : [(2 : Int), 0].Nodup := by decide
  ⟨hlines, deleteLines_restrict (fun i j => ([[0, 1, 2], [3, 4, 5], [6, 7, 8]].getD i []).getD j 0)
    (fun i => ["a", "b", "c"].getD i "") hlines (n := 3) (by decide)⟩

end ParallelPatterns.StageMatrix
