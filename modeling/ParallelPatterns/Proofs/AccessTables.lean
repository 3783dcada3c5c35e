import Mathlib.Algebra.GroupWithZero.Nat
import Mathlib.Data.List.Nodup
import Mathlib.Data.Set.Basic
import ParallelPatterns.Device.CallAccess
import ParallelPatterns.Proofs.Table

/-!
# Tables of accesses

Accesses stand in nested tables: by device, by node and by region. A node, a region or a device
without an entry counts as one without accesses, so two tables record the same if they give the same
set of identifiers for every device, node and region. Adding to a table is a row of updates; what it
adds to these sets is read off here once for each operation.

The tables of a run are proper: no key and no identifier stands twice. The number of recorded
accesses is then the number of quadruples of device, node, region and identifier.
-/

namespace ParallelPatterns

open List Table

namespace Table

variable {κ ν : Type}

variable [BEq κ] [LawfulBEq κ] {P : ν → Prop} {t : Table κ ν}

theorem keys_update (t : Table κ ν) (k : κ) (d : ν) (f : ν → ν) : (t.update k d f).keys = addNew t.keys k :=
  keys_insert t k _

variable {M : ν → Prop} {k : κ}

theorem exists_entry_iff (hkeys : t.keys.Nodup) {d : ν} (hd : ¬M d) :
    (∃ v, (k, v) ∈ t.entries ∧ M v) ↔ M (t.getD k d) := by
  constructor
  · rintro ⟨v, hv, hM⟩
    rw [getD, get?_of_mem hkeys hv]
    exact hM
  · intro hM
    unfold getD at hM
    cases hk : t.get? k with
    | none =>
      rw [hk] at hM
      exact absurd hM hd
    | some v =>
      rw [hk] at hM
      exact ⟨v, mem_of_get? hk, hM⟩

section Updates

variable {α : Type} {F : α → ν → ν} {es : List (κ × α)} {d : ν}

theorem Proper.updates (h : t.Proper P) (hd : P d) (hF : ∀ e ∈ es, ∀ v, P v → P (F e.2 v)) :
    (es.foldl (fun t e => t.update e.1 d (F e.2)) t).Proper P :=
  foldlRecOn es _ h fun _ ht e he => ht.update e.1 hd (hF e he)

theorem updates_iff {N : α → Prop} (hF : ∀ e ∈ es, ∀ v, M (F e.2 v) ↔ M v ∨ N e.2) (t : Table κ ν) (k : κ) :
    M ((es.foldl (fun t e => t.update e.1 d (F e.2)) t).getD k d) ↔ M (t.getD k d) ∨ ∃ x, (k, x) ∈ es ∧ N x := by
  rw [foldl_iff (M := fun t : Table κ ν => M (t.getD k d)) (N := fun e => e.1 = k ∧ N e.2)]
  · exact or_congr_right (by grind)
  · intro t e he
    rw [getD_update]
    by_cases hk : e.1 = k
    · simp [hk, hF e he]
    · simp [hk]

theorem mem_keys_updates :
    k ∈ (es.foldl (fun t e => t.update e.1 d (F e.2)) t).keys ↔ k ∈ t.keys ∨ k ∈ es.map (·.1) := by
  rw [foldl_iff (M := fun t : Table κ ν => k ∈ t.keys) (N := fun e => e.1 = k), mem_map]
  intro t e _
  rw [keys_update, mem_addNew, eq_comm]

end Updates

/-! ## Counting -/

def flatten {β : Type} (f : ν → List β) (t : Table κ ν) : List (κ × β) :=
  t.entries.flatMap fun e => (f e.2).map (Prod.mk e.1)

theorem mem_flatten_iff {β : Type} {f : ν → List β} (hkeys : t.keys.Nodup) {d : ν} (hd : f d = [])
    {b : β} : (k, b) ∈ t.flatten f ↔ b ∈ f (t.getD k d) := by
  rw [← exists_entry_iff hkeys (M := fun v => b ∈ f v) (by simp [hd]), flatten, mem_flatMap]
  constructor
  · rintro ⟨e, he, hb⟩
    obtain ⟨b', hb', heq⟩ := mem_map.1 hb
    cases heq
    exact ⟨e.2, he, hb'⟩
  · rintro ⟨v, hv, hb⟩
    exact ⟨(k, v), hv, mem_map.2 ⟨b, hb, rfl⟩⟩

end Table

theorem Table.Proper.nodup_flatten {κ ν β : Type} {P : ν → Prop} {f : ν → List β} {t : Table κ ν}
    (h : t.Proper P) (hf : ∀ v, P v → (f v).Nodup) : (t.flatten f).Nodup := by
  refine nodup_flatMap.2 ⟨fun e he => ?_, ?_⟩
  · exact (hf e.2 (h.values e he)).map fun _ _ heq => (Prod.mk.inj heq).2
  · refine (pairwise_map.1 h.keys).imp fun {e e'} hne x hx hx' => ?_
    obtain ⟨_, _, rfl⟩ := mem_map.1 hx
    obtain ⟨_, _, heq⟩ := mem_map.1 hx'
    exact hne (Prod.mk.inj heq).1.symm

theorem total_eq_sum (ns : List Nat) : total ns = ns.sum :=
  sum_eq_foldl.symm

theorem total_flatMap {α : Type} (f : α → List Nat) (xs : List α) :
    total (xs.flatMap f) = total (xs.map fun x => total (f x)) := by
  simp [total_eq_sum, flatMap_def, sum_flatten, Function.comp_def]

theorem Table.length_flatten {κ ν β : Type} (f : ν → List β) (t : Table κ ν) :
    (t.flatten f).length = total (t.values.map fun v => (f v).length) := by
  simp [flatten, values, total_eq_sum, length_flatMap, Function.comp_def]

/-! ## Accesses to regions -/

namespace RegionAccesses

variable {t : RegionAccesses} {r : Region} {i : Option Int}

/-- No region and no identifier stands twice. -/
abbrev Proper : RegionAccesses → Prop := Table.Proper List.Nodup

theorem Proper.add (h : t.Proper) (accesses : List (Region × List (Option Int))) : (t.add accesses).Proper :=
  Table.Proper.updates (F := fun ids old => addAll old ids) h nodup_nil fun e _ _ hv =>
    foldlRecOn e.2 addNew hv fun _ h _ _ => nodup_addNew h

theorem mem_add_iff {accesses : List (Region × List (Option Int))} :
    i ∈ (t.add accesses).getD r [] ↔ i ∈ t.getD r [] ∨ ∃ ids, (r, ids) ∈ accesses ∧ i ∈ ids :=
  updates_iff (F := fun ids old => addAll old ids) (M := (i ∈ ·)) (N := (i ∈ ·)) (fun _ _ _ => mem_addAll) t r

theorem Proper.exists_entry_iff (h : t.Proper) : (∃ ids, (r, ids) ∈ t.entries ∧ i ∈ ids) ↔ i ∈ t.getD r [] :=
  Table.exists_entry_iff h.keys (M := (i ∈ ·)) not_mem_nil

theorem mem_add_entries_iff {t' : RegionAccesses} (h : t'.Proper) :
    i ∈ (t.add t'.entries).getD r [] ↔ i ∈ t.getD r [] ∨ i ∈ t'.getD r [] := by
  rw [mem_add_iff, h.exists_entry_iff]

end RegionAccesses

/-! ## Accesses on devices -/

open RegionAccesses.Proper

namespace WritesByDevice

variable {w : WritesByDevice}

/-- No device, node, region and identifier stands twice. -/
abbrev Proper : WritesByDevice → Prop := Table.Proper (Table.Proper RegionAccesses.Proper)

/-- The identifiers of the accesses of a node to a region on a device. -/
def recorded (w : WritesByDevice) (d : Int) (n : NodeId) (r : Region) : Set (Option Int) :=
  {i | i ∈ (w.ofNode d n).getD r []}

instance (w : WritesByDevice) (d : Int) (n : NodeId) (r : Region) (i : Option Int) :
    Decidable (i ∈ w.recorded d n r) :=
  inferInstanceAs (Decidable (i ∈ (w.ofNode d n).getD r []))

theorem mem_recorded_iff {d : Int} {n : NodeId} {r : Region} {i : Option Int} :
    i ∈ w.recorded d n r ↔ i ∈ ((w.getD d ∅).getD n ∅).getD r [] := by
  unfold recorded ofNode
  rw [Set.mem_ofPred_eq, getD.eq_def w]
  cases w.get? d <;> rfl

def facts (w : WritesByDevice) : List (Int × NodeId × Region × Option Int) :=
  w.flatten fun units => units.flatten fun regions => regions.flatten id

theorem length_facts (w : WritesByDevice) : w.facts.length = w.count := by
  rw [facts, Table.length_flatten, count, total_flatMap]
  simp only [total_flatMap, Table.length_flatten]
  rfl

theorem Proper.nodup_facts (h : w.Proper) : w.facts.Nodup :=
  h.nodup_flatten fun _ hunits => hunits.nodup_flatten fun _ hregions => hregions.nodup_flatten fun _ => id

theorem Proper.mem_facts_iff (h : w.Proper) {d : Int} {n : NodeId} {r : Region} {i : Option Int} :
    (d, n, r, i) ∈ w.facts ↔ i ∈ w.recorded d n r := by
  have hunits := h.getD d (proper_empty _)
  have hregions := hunits.getD n (proper_empty _)
  rw [mem_recorded_iff, facts, mem_flatten_iff h.keys (d := ∅) rfl,
    mem_flatten_iff hunits.keys (d := ∅) rfl, mem_flatten_iff hregions.keys (d := []) rfl, id]

end WritesByDevice

namespace DeviceAccesses

variable {r : Region} {i : Option Int}

/-- No device, region and identifier stands twice. -/
abbrev Proper : DeviceAccesses → Prop := Table.Proper RegionAccesses.Proper

def accessed (t : DeviceAccesses) (d : Int) (r : Region) : Set (Option Int) := {i | i ∈ (t.getD d ∅).getD r []}

variable {t : DeviceAccesses}

theorem Proper.exists_entry_iff (h : t.Proper) {d : Int} :
    (∃ regions, (d, regions) ∈ t.entries ∧ i ∈ regions.getD r []) ↔ i ∈ t.accessed d r :=
  Table.exists_entry_iff h.keys (M := fun regions => i ∈ regions.getD r []) not_mem_nil

def facts (t : DeviceAccesses) : List (Int × Region × Option Int) := t.flatten fun regions => regions.flatten id

theorem Proper.mem_facts_iff (h : t.Proper) {d : Int} : (d, r, i) ∈ t.facts ↔ i ∈ t.accessed d r := by
  have hregions := h.getD d (proper_empty _)
  rw [facts, mem_flatten_iff h.keys (d := ∅) rfl, mem_flatten_iff hregions.keys (d := []) rfl]
  rfl

/-- If there are accesses on any device, the host is listed. -/
def Hosted (t : DeviceAccesses) : Prop := t.entries = [] ∨ 0 ∈ t.keys

section AddNode

def gather (n : NodeId) (units : WritesByUnit) (regions : RegionAccesses) : RegionAccesses :=
  regions.add (units.getD n ∅).entries

variable {w : WritesByDevice} {t : DeviceAccesses}

theorem Proper.addNode (h : t.Proper) (w : WritesByDevice) (n : NodeId) : (addNode w t n).Proper :=
  Table.Proper.updates (F := gather n) h (proper_empty _) fun _ _ _ hregions => add hregions _

theorem mem_accessed_addNode (hw : w.Proper) {n : NodeId} {d : Int} :
    i ∈ accessed (addNode w t n) d r ↔ i ∈ accessed t d r ∨ i ∈ w.recorded d n r := by
  rw [WritesByDevice.mem_recorded_iff,
    ← exists_entry_iff hw.keys (M := fun units => i ∈ (units.getD n ∅).getD r []) (d := ∅) not_mem_nil]
  refine updates_iff (F := gather n) (M := fun regions : RegionAccesses => i ∈ regions.getD r [])
    (N := fun units : WritesByUnit => i ∈ (units.getD n ∅).getD r []) (fun e he regions => ?_) t d
  exact RegionAccesses.mem_add_entries_iff ((hw.values e he).getD n (proper_empty _))

theorem Proper.addNodes (h : t.Proper) (w : WritesByDevice) (ns : List NodeId) :
    (ns.foldl (DeviceAccesses.addNode w) t).Proper :=
  foldlRecOn ns _ h fun _ h n _ => h.addNode w n

theorem mem_accessed_addNodes (hw : w.Proper) {ns : List NodeId} {d : Int} :
    i ∈ accessed (ns.foldl (addNode w) t) d r ↔ i ∈ accessed t d r ∨ ∃ n ∈ ns, i ∈ w.recorded d n r := by
  rw [foldl_iff (M := fun t => i ∈ accessed t d r) (N := fun n => i ∈ w.recorded d n r)]
  exact fun _ _ _ => mem_accessed_addNode hw

theorem Hosted.addNodes (h : t.Hosted) (hw : 0 ∈ w.keys) (ns : List NodeId) : Hosted (ns.foldl (addNode w) t) :=
  foldlRecOn ns _ h fun _ _ n _ => .inr ((mem_keys_updates (F := gather n)).2 (.inr hw))

end AddNode

theorem Proper.exists_others_iff (h : t.Proper) :
    (∃ ids, (r, ids) ∈ (t.entries.filter fun e => e.1 != 0).flatMap (fun e => e.2.entries) ∧ i ∈ ids) ↔
      ∃ d, d ≠ 0 ∧ i ∈ accessed t d r := by
  constructor
  · rintro ⟨ids, hids, hi⟩
    obtain ⟨e, he, hids⟩ := mem_flatMap.1 hids
    obtain ⟨he, hother⟩ := mem_filter.1 he
    have hregions := (RegionAccesses.Proper.exists_entry_iff (h.values e he)).1 ⟨ids, hids, hi⟩
    exact ⟨e.1, bne_iff_ne.1 hother, h.exists_entry_iff.1 ⟨e.2, he, hregions⟩⟩
  · rintro ⟨d, hd, hi⟩
    obtain ⟨regions, hregions, hi⟩ := h.exists_entry_iff.2 hi
    obtain ⟨ids, hids, hi⟩ := (RegionAccesses.Proper.exists_entry_iff (h.values _ hregions)).2 hi
    exact ⟨ids, mem_flatMap.2 ⟨_, mem_filter.2 ⟨hregions, bne_iff_ne.2 hd⟩, hids⟩, hi⟩

theorem Hosted.exists_onHost (h : t.Hosted) (hproper : t.Proper) :
    ∃ host, onHost t = .ok host ∧ Proper host ∧ Hosted host ∧
      ∀ d r i, i ∈ accessed host d r ↔ d = 0 ∧ ∃ d', i ∈ accessed t d' r := by
  unfold onHost
  rcases h with hnil | hhost
  · obtain ⟨es⟩ := t
    obtain rfl : es = [] := hnil
    refine ⟨∅, rfl, proper_empty _, .inl rfl, fun d r i => ⟨fun hi => absurd hi not_mem_nil, ?_⟩⟩
    rintro ⟨-, d', hi⟩
    exact absurd hi not_mem_nil
  · obtain ⟨host, hget⟩ := Option.isSome_iff_exists.1 (mem_keys_iff.1 hhost)
    simp only [hget]
    have hadded := add (hproper.values _ (mem_of_get? hget))
      ((t.entries.filter fun e => e.1 != 0).flatMap fun e => e.2.entries)
    have hnew : DeviceAccesses.Proper ⟨[(0, RegionAccesses.add host
        ((t.entries.filter fun e => e.1 != 0).flatMap fun e => e.2.entries))]⟩ :=
      ⟨by simp [Table.keys], fun e he => mem_singleton.1 he ▸ hadded⟩
    refine ⟨_, rfl, hnew, .inr (by simp [Table.keys]), fun d r i => ?_⟩
    by_cases hd : d = 0
    · subst hd
      have hown : i ∈ host.getD r [] ↔ i ∈ accessed t 0 r := by
        unfold accessed Table.getD
        rw [hget]
        rfl
      refine RegionAccesses.mem_add_iff.trans ?_
      rw [hproper.exists_others_iff, hown]
      constructor
      · rintro (hi | ⟨d', -, hi⟩)
        · exact ⟨rfl, 0, hi⟩
        · exact ⟨rfl, d', hi⟩
      · rintro ⟨-, d', hi⟩
        by_cases hd' : d' = 0
        · exact .inl (hd' ▸ hi)
        · exact .inr ⟨d', hd', hi⟩
    · refine ⟨fun hi => absurd ?_ hd, fun hi => absurd hi.1 hd⟩
      obtain ⟨regions, hregions, -⟩ := hnew.exists_entry_iff.2 hi
      exact (Prod.mk.inj (mem_singleton.1 hregions)).1

end DeviceAccesses

/-! ## Accesses of callers -/

namespace WritesByDevice

section Callers

variable {d d' : Int} {n : NodeId} {r : Region} {i : Option Int} {w : WritesByDevice}

theorem Proper.addAccesses (h : w.Proper) (d : Int) (regions : RegionAccesses) (c : NodeId) :
    (addAccesses d regions w c).Proper :=
  Table.Proper.update h d (proper_empty _) fun _ hunits =>
    hunits.update c (proper_empty _) fun _ hold => add hold _

variable {regions : RegionAccesses} {callers : List NodeId}

theorem mem_recorded_addAccesses (hregions : regions.Proper) {c : NodeId} :
    i ∈ (addAccesses d' regions w c).recorded d n r ↔
      i ∈ w.recorded d n r ∨ d = d' ∧ n = c ∧ i ∈ regions.getD r [] := by
  rw [mem_recorded_iff, mem_recorded_iff, addAccesses, getD_update]
  by_cases hd : d' = d
  · rw [if_pos (by simp [hd]), getD_update]
    by_cases hc : c = n
    · simp [hd, hc, RegionAccesses.mem_add_entries_iff hregions]
    · simp [hc, Ne.symm hc]
  · simp [hd, Ne.symm hd]

theorem Proper.addToCallers (h : w.Proper) (accesses : DeviceAccesses) (callers : List NodeId) :
    (w.addToCallers accesses callers).Proper := by
  refine foldlRecOn accesses.entries _ h fun w hw e _ => ?_
  refine foldlRecOn callers _ (motive := Proper) ?_ fun w hw c _ => hw.addAccesses e.1 e.2 c
  exact hw.update e.1 (proper_empty _) fun _ hunits => hunits

theorem mem_recorded_foldl_addAccesses (hregions : regions.Proper) :
    i ∈ (callers.foldl (addAccesses d' regions) w).recorded d n r ↔
      i ∈ w.recorded d n r ∨ d = d' ∧ n ∈ callers ∧ i ∈ regions.getD r [] := by
  rw [foldl_iff (f := addAccesses d' regions) (M := (i ∈ recorded · d n r)) fun _ _ _ =>
    mem_recorded_addAccesses hregions]
  simp [and_left_comm]

theorem mem_recorded_addToCallers {accesses : DeviceAccesses} (h : accesses.Proper) :
    i ∈ (w.addToCallers accesses callers).recorded d n r ↔
      i ∈ w.recorded d n r ∨ n ∈ callers ∧ i ∈ accesses.accessed d r := by
  rw [← DeviceAccesses.Proper.exists_entry_iff h, addToCallers,
    foldl_iff (M := (i ∈ recorded · d n r)) (N := fun e => d = e.1 ∧ n ∈ callers ∧ i ∈ e.2.getD r [])]
  · refine or_congr_right ⟨?_, ?_⟩
    · rintro ⟨e, he, rfl, hn, hi⟩
      exact ⟨hn, e.2, he, hi⟩
    · rintro ⟨hn, regions, hregions, hi⟩
      exact ⟨_, hregions, rfl, hn, hi⟩
  · intro w e he
    rw [mem_recorded_foldl_addAccesses (h.values e he), mem_recorded_iff, mem_recorded_iff, getD_update]
    split <;> rfl

theorem mem_keys_addToCallers (hw : 0 ∈ w.keys) (accesses : DeviceAccesses)
    (callers : List NodeId) : 0 ∈ (w.addToCallers accesses callers).keys := by
  refine foldlRecOn accesses.entries _ (motive := fun w : WritesByDevice => 0 ∈ w.keys) hw fun w hw e _ => ?_
  refine foldlRecOn callers _ (motive := fun w : WritesByDevice => 0 ∈ w.keys) ?_ fun w hw c _ => ?_
  · rw [keys_update, mem_addNew]
    exact .inl hw
  · rw [addAccesses, keys_update, mem_addNew]
    exact .inl hw

end Callers

end WritesByDevice

end ParallelPatterns
