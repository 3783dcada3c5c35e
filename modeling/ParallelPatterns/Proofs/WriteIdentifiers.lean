import ParallelPatterns.Device.Writes
import ParallelPatterns.Proofs.AccessTables

/-!
# Identifiers of writes

Runs over live regions number their writes one after the other. In the writes by unit, a unit has
marks for a region exactly if the region is live in it: the empty mark if the unit does not write
the region, else identifiers, none of which stands at another place or in another run.
-/

namespace ParallelPatterns

open List RegionWrites

/-- The marks of a unit for a region. -/
def WritesByUnit.marks (t : WritesByUnit) (id : NodeId) (r : Region) : List (Option Int) := (t.getD id ∅).getD r []

/-- A unit has an entry for a region exactly if the region is live in it, and an entry has marks:
the empty one alone if the unit does not write the region, else identifiers, which stand for this
unit and this region only. -/
structure WritesByUnit.Identifies (t : WritesByUnit) (live : Liveness)
    (written : Table NodeId (List Region)) : Prop where
  listed : ∀ id r, r ∈ (t.getD id ∅).keys ↔ ∃ ids, (r, ids) ∈ live.entries ∧ id ∈ ids
  filled : ∀ id, ∀ r ∈ (t.getD id ∅).keys, t.marks id r ≠ []
  unwritten : ∀ id r, isWritten written r id = false → ∀ w ∈ t.marks id r, w = none
  written : ∀ id r, isWritten written r id = true → none ∉ t.marks id r
  single : ∀ id r id' r' k, some k ∈ t.marks id r → some k ∈ t.marks id' r' → id = id' ∧ r = r'

namespace RegionWrites

/-- What holds while writes are numbered, from the first identifier on. -/
structure Numbered (written : Table NodeId (List Region)) (first : Int) (s : RegionWrites × Int) : Prop where
  keys : s.1.keys.Nodup
  le : first ≤ s.2
  written : ∀ id r w, (id, w) ∈ s.1.getD r [] → w.isSome = isWritten written r id
  between : ∀ id r k, (id, some k) ∈ s.1.getD r [] → first ≤ k ∧ k < s.2
  single : ∀ id r id' r' k, (id, some k) ∈ s.1.getD r [] → (id', some k) ∈ s.1.getD r' [] → id = id' ∧ r = r'

variable {written : Table NodeId (List Region)} {next : Int} {s : RegionWrites × Int}
  {id id' : NodeId} {r r' : Region} {w : Option Int} {live : Liveness}

theorem mem_mark_iff :
    (id', w) ∈ (mark written r s id).1.getD r' [] ↔
      (id', w) ∈ s.1.getD r' [] ∨ r' = r ∧ id' = id ∧ w = if isWritten written r id then some s.2 else none := by
  unfold mark
  split <;> rw [Table.getD_update] <;> split <;> grind [mem_addNew]

theorem getD_insertNew (t : RegionWrites) : (t.insertNew r []).getD r' [] = t.getD r' [] := by
  rw [Table.getD, Table.get?_insertNew]
  grind [Table.getD]

theorem Numbered.mark (h : Numbered written next s) (r : Region) (id : NodeId) :
    Numbered written next (mark written r s id) := by
  have hnext : (RegionWrites.mark written r s id).2 = if isWritten written r id then s.2 + 1 else s.2 := by
    unfold RegionWrites.mark
    split <;> rfl
  obtain ⟨hkeys, hle, hwritten, hbetween, hsingle⟩ := h
  refine ⟨?_, by grind, ?_, ?_, ?_⟩
  · unfold RegionWrites.mark
    split <;> exact Table.nodup_keys_update hkeys ..
  all_goals
    simp only [mem_mark_iff]
    grind

theorem numbered_ofLiveness (next : Int) (live : Liveness) (written : Table NodeId (List Region)) :
    Numbered written next (ofLiveness next live written) := by
  refine foldlRecOn _ _ ⟨nodup_nil, le_rfl, ?_, ?_, ?_⟩ fun s hs e _ => ?_
  iterate 3 simp [Table.getD]
  refine foldlRecOn _ _ ?_ fun s hs id _ => hs.mark e.1 id
  obtain ⟨hkeys, hle, hwritten, hbetween, hsingle⟩ := hs
  refine ⟨?_, hle, ?_, ?_, ?_⟩
  · unfold Table.insertNew
    split
    · exact hkeys
    · exact Table.nodup_keys_insert hkeys _ _
  all_goals simpa only [getD_insertNew]

theorem exists_mem_ofLiveness_iff :
    (∃ w, (id, w) ∈ (ofLiveness next live written).1.getD r []) ↔ ∃ ids, (r, ids) ∈ live.entries ∧ id ∈ ids := by
  rw [ofLiveness, foldl_iff (M := fun s : RegionWrites × Int => ∃ w, (id, w) ∈ s.1.getD r [])
    (N := fun e => r = e.1 ∧ id ∈ e.2)]
  · grind [Table.getD, Table.get?_emptyCollection]
  · intro s e _
    rw [foldl_iff (M := fun s : RegionWrites × Int => ∃ w, (id, w) ∈ s.1.getD r [])
      (N := fun id' => r = e.1 ∧ id = id')]
    · simp [getD_insertNew, and_comm]
    · intro s id' _
      simp only [mem_mark_iff]
      grind

/-- No empty mark is dropped: a node that writes a region never gets one. -/
theorem dropOverwritten_ofLiveness :
    (ofLiveness next live written).1.dropOverwritten = (ofLiveness next live written).1 := by
  obtain ⟨hkeys, -, hwritten, -, -⟩ := numbered_ofLiveness next live written
  generalize (ofLiveness next live written).1 = t at hkeys hwritten
  have hsame : ∀ e ∈ t.entries, (e.1, e.2.filter fun a =>
      a.2.isSome || !e.2.any fun b => b.1 == a.1 && b.2.isSome) = e := by
    intro e he
    have hmarks : t.getD e.1 [] = e.2 := by rw [Table.getD, Table.get?_of_mem hkeys he]; rfl
    refine Prod.ext rfl (filter_eq_self.2 ?_)
    grind
  exact congrArg Table.mk ((map_congr_left hsame).trans (map_id _))

theorem byUnit_iff {t : RegionWrites} (hkeys : t.keys.Nodup)
    {M : Table Region (List (Option Int)) → Prop} {N : Region → Option Int → Prop} (hempty : ¬M ∅)
    (hstep : ∀ r w regions, M (regions.update r [] (addNew · w)) ↔ M regions ∨ N r w) :
    M (t.byUnit.getD id ∅) ↔ ∃ r w, (id, w) ∈ t.getD r [] ∧ N r w := by
  have hentry : ∀ r w, (∃ as, (r, as) ∈ t.entries ∧ (id, w) ∈ as) ↔ (id, w) ∈ t.getD r [] :=
    fun r w => Table.exists_entry_iff hkeys not_mem_nil
  simp only [← hentry]
  rw [byUnit, foldl_iff (M := fun out : WritesByUnit => M (out.getD id ∅))
    (N := fun e => ∃ a ∈ e.2, a.1 = id ∧ N e.1 a.2)]
  · refine (or_iff_right hempty).trans ⟨?_, ?_⟩
    · rintro ⟨e, he, a, ha, rfl, hN⟩
      exact ⟨e.1, a.2, ⟨e.2, he, ha⟩, hN⟩
    · rintro ⟨r, w, ⟨as, has, hw⟩, hN⟩
      exact ⟨_, has, _, hw, rfl, hN⟩
  · intro out e _
    rw [foldl_iff (M := fun out : WritesByUnit => M (out.getD id ∅))]
    intro out a _
    rw [Table.getD_update]
    by_cases ha : a.1 = id <;> simp [ha, hstep]

/-- The writes of a run by unit. -/
def grouped (next : Int) (live : Liveness) (written : Table NodeId (List Region)) : WritesByUnit :=
  (ofLiveness next live written).1.dropOverwritten.byUnit

theorem mem_marks_grouped_iff :
    w ∈ (grouped next live written).marks id r ↔ (id, w) ∈ (ofLiveness next live written).1.getD r [] := by
  rw [grouped, dropOverwritten_ofLiveness, WritesByUnit.marks, byUnit_iff (numbered_ofLiveness ..).keys
    (M := fun regions => w ∈ regions.getD r []) (N := fun r' w' => r' = r ∧ w' = w) not_mem_nil]
  · simp
  · intro r' w' regions
    rw [Table.getD_update]
    grind [mem_addNew]

theorem mem_keys_grouped_iff :
    r ∈ ((grouped next live written).getD id ∅).keys ↔ ∃ w,
      (id, w) ∈ (ofLiveness next live written).1.getD r [] := by
  rw [grouped, dropOverwritten_ofLiveness, byUnit_iff (numbered_ofLiveness ..).keys (M := (r ∈ ·.keys))
    (N := fun r' _ => r' = r) not_mem_nil]
  · simp
  · intro r' w' regions
    rw [Table.keys_update, mem_addNew, eq_comm]

theorem identifies_grouped : (grouped next live written).Identifies live written := by
  obtain ⟨-, -, hwritten, -, hsingle⟩ := numbered_ofLiveness next live written
  simp only [← mem_marks_grouped_iff] at hwritten hsingle
  refine ⟨fun id r => mem_keys_grouped_iff.trans exists_mem_ofLiveness_iff, fun id r hr => ?_,
    fun id r h w hw => ?_, fun id r h hnone => ?_, hsingle⟩
  · obtain ⟨w, hw⟩ := mem_keys_grouped_iff.1 hr
    exact ne_nil_of_mem (mem_marks_grouped_iff.2 hw)
  · simpa [h] using hwritten id r w hw
  · simpa [h] using hwritten id r none hnone

/-- Runs one after the other: each goes on with the identifier that is free after the one before. -/
def groupedRuns (next : Int) : List (Liveness × Table NodeId (List Region)) → List WritesByUnit
  | [] => []
  | run :: runs => grouped next run.1 run.2 :: groupedRuns (ofLiveness next run.1 run.2).2 runs

variable {runs : List (Liveness × Table NodeId (List Region))}

theorem le_of_mem_groupedRuns {t : WritesByUnit} (ht : t ∈ groupedRuns next runs) {k : Int}
    (hk : some k ∈ t.marks id r) : next ≤ k := by
  induction runs generalizing next with
  | nil => cases ht
  | cons run runs ih =>
    have hrun := numbered_ofLiveness next run.1 run.2
    rcases mem_cons.1 ht with rfl | ht
    · exact (hrun.between id r k (mem_marks_grouped_iff.1 hk)).1
    · exact hrun.le.trans (ih ht)

/-- Each run marks its live nodes, and no identifier of a run stands in another one. -/
theorem groupedRuns_identifies (next : Int) (runs : List (Liveness × Table NodeId (List Region))) :
    Forall₂ (fun run (t : WritesByUnit) => t.Identifies run.1 run.2) runs (groupedRuns next runs) ∧
      (groupedRuns next runs).Pairwise fun t t' =>
        ∀ id r id' r' k, some k ∈ t.marks id r → some k ∉ t'.marks id' r' := by
  induction runs generalizing next with
  | nil => exact ⟨.nil, .nil⟩
  | cons run runs ih =>
    have hrun := numbered_ofLiveness next run.1 run.2
    obtain ⟨hall, hpairs⟩ := ih (ofLiveness next run.1 run.2).2
    refine ⟨.cons identifies_grouped hall, .cons (fun t ht id r id' r' k hk hk' => ?_) hpairs⟩
    have hlt := (hrun.between id r k (mem_marks_grouped_iff.1 hk)).2
    exact absurd (le_of_mem_groupedRuns ht hk') (not_le.2 hlt)

end RegionWrites

end ParallelPatterns
