import ParallelPatterns.Device.Lifespan
import ParallelPatterns.Proofs.Computation
import ParallelPatterns.Proofs.CycleSearch
import ParallelPatterns.Proofs.Table

/-!
# Liveness between live nodes

The liveness of a region is extended along all ways of a flow graph. The nodes passed since the last
live node become live as soon as the way comes to a live node again. Nodes that became live count as
live from then on, also for the ways that are followed later. This makes no difference to the
result: a node that became live lies between two nodes that were live from the start, so what lies
between it and another live node does so, too.

In a graph without cycles every way ends, so the extension succeeds, and the live nodes are in the
end exactly the nodes on ways between nodes that were live at first.
-/

namespace ParallelPatterns

open List

variable {n : NodeId} {ss ids : List NodeId}

namespace FlowGraph

/-- The node lies on a way between two of the given nodes. -/
def Between (flow : FlowGraph) (live : List NodeId) (n : NodeId) : Prop :=
  ∃ a ∈ live, ∃ b ∈ live, flow.Leads a n ∧ flow.Leads n b

variable {flow : FlowGraph}

theorem mem_successors_iff {s t : NodeId} : t ∈ flow.successors s ↔ flow.Joins s t := by
  unfold successors Joins
  rw [mem_map]
  constructor
  · rintro ⟨e, he, rfl⟩
    obtain ⟨hedge, rfl⟩ := mem_outEdges_iff.1 he
    exact ⟨e.2.2, hedge⟩
  · rintro ⟨k, hk⟩
    exact ⟨(s, t, k), mem_outEdges_iff.2 ⟨hk, rfl⟩, rfl⟩

theorem Between.of_mem {live : List NodeId} (h : n ∈ live) : flow.Between live n :=
  ⟨n, h, n, h, .refl, .refl⟩

/-! ## Short ways -/

def Shallow (flow : FlowGraph) : Nat → NodeId → Prop
  | 0, _ => False
  | k + 1, n => ∀ s, flow.Joins n s → flow.Shallow k s

theorem Acyclic.shallow_of_seen (hacyclic : flow.Acyclic) (hclosed : flow.Closed) {k : Nat}
    (seen : List NodeId) (hnodup : (seen ++ [n]).Nodup) (hnodes : seen ++ [n] ⊆ flow.nodes)
    (hseen : ∀ v ∈ seen, Relation.TransGen flow.Joins v n)
    (hk : flow.nodes.length ≤ k + seen.length) : flow.Shallow k n := by
  induction k generalizing n seen with
  | zero =>
    have hlength := (hnodup.subperm hnodes).length_le
    rw [length_append, length_singleton] at hlength
    omega
  | succ k ih =>
    rintro s ⟨key, hkey⟩
    have hstep : flow.Joins n s := ⟨key, hkey⟩
    have hbefore : ∀ v ∈ seen ++ [n], Relation.TransGen flow.Joins v s := by
      intro v hv
      rcases mem_append.1 hv with hv | hv
      · exact (hseen v hv).tail hstep
      · rw [mem_singleton.1 hv]
        exact .single hstep
    have hnew : s ∉ seen ++ [n] := fun hs => hacyclic s (hbefore s hs)
    refine ih (seen ++ [n]) (nodup_append.2 ⟨hnodup, by simp, ?_⟩) (append_subset.2 ⟨hnodes, ?_⟩) hbefore ?_
    · rintro a ha b hb rfl
      exact hnew (mem_singleton.1 hb ▸ ha)
    · simpa using hclosed _ hkey
    · rw [length_append, length_singleton]
      omega

theorem Acyclic.shallow (hacyclic : flow.Acyclic) (hclosed : flow.Closed) (n : NodeId) :
    flow.Shallow (flow.nodes.length + 1) n := by
  rintro s ⟨key, hkey⟩
  refine hacyclic.shallow_of_seen hclosed [] (by simp) ?_ (by simp) (by simp)
  simpa using hclosed _ hkey

end FlowGraph

namespace Graph

/-! ## Going on to the successors -/

variable {found : List NodeId × List (NodeId × List NodeId)} {way : NodeId × List NodeId}

theorem mem_live_goOn {passed : List NodeId} :
    n ∈ (ss.foldl (goOn passed) found).1 ↔ n ∈ found.1 ∨ n ∈ passed ∧ ∃ s ∈ ss, s ∈ found.1 := by
  induction ss generalizing found with
  | nil => simp
  | cons s ss ih =>
    rw [foldl_cons, ih]
    unfold goOn
    by_cases hs : found.1.contains s
    · have hmem : s ∈ found.1 := elem_iff.1 hs
      rw [if_pos hs]
      simp only [mem_addAll, mem_cons]
      constructor
      · rintro ((hn | hn) | ⟨hn, -⟩)
        · exact .inl hn
        · exact .inr ⟨hn, s, .inl rfl, hmem⟩
        · exact .inr ⟨hn, s, .inl rfl, hmem⟩
      · rintro (hn | ⟨hn, -⟩)
        · exact .inl (.inl hn)
        · exact .inl (.inr hn)
    · have hnot : s ∉ found.1 := fun hmem => hs (elem_iff.2 hmem)
      rw [if_neg hs]
      simp only [mem_cons, exists_eq_or_imp, hnot, false_or]

theorem mem_ways_goOn {passed : List NodeId} (hway : way ∈ (ss.foldl (goOn passed) found).2) :
    way ∈ found.2 ∨ way.1 ∈ ss ∧ (way.2 = passed ∨ way.2 = [] ∧ way.1 ∈ (ss.foldl (goOn passed) found).1) := by
  induction ss generalizing found with
  | nil => exact .inl hway
  | cons s ss ih =>
    rw [foldl_cons] at hway ⊢
    rcases ih hway with hway | ⟨hs, hpassed⟩
    · unfold goOn at hway
      by_cases hs : found.1.contains s
      · rw [if_pos hs] at hway
        rcases mem_cons.1 hway with rfl | hway
        · refine .inr ⟨by simp, .inr ⟨rfl, mem_live_goOn.2 (.inl ?_)⟩⟩
          rw [goOn, if_pos hs, mem_addAll]
          exact .inl (elem_iff.1 hs)
        · exact .inl hway
      · rw [if_neg hs] at hway
        rcases mem_cons.1 hway with rfl | hway
        · exact .inr ⟨by simp, .inl rfl⟩
        · exact .inl hway
    · exact .inr ⟨by simp [hs], hpassed⟩

theorem exists_way_goOn (passed : List NodeId) (found : List NodeId × List (NodeId × List NodeId))
    {s : NodeId} (hs : s ∈ ss) : ∃ way ∈ (ss.foldl (goOn passed) found).2, way.1 = s ∧
      ∀ n ∈ passed, n ∈ way.2 ∨ n ∈ (ss.foldl (goOn passed) found).1 := by
  have hkept : ∀ (ss : List NodeId) (found : List NodeId × List (NodeId × List NodeId)), ∀ way ∈ found.2,
      way ∈ (ss.foldl (goOn passed) found).2 := by
    intro ss found way hway
    refine foldlRecOn ss _ (motive := fun r : List NodeId × List (NodeId × List NodeId) => way ∈ r.2) hway
      fun r hr t _ => ?_
    unfold goOn
    split <;> exact mem_cons_of_mem _ hr
  induction ss generalizing found with
  | nil => cases hs
  | cons t ss ih =>
    rw [foldl_cons]
    rcases mem_cons.1 hs with rfl | hs
    · by_cases hlive : found.1.contains s
      · refine ⟨(s, []), hkept _ _ _ ?_, rfl, fun n hn => .inr (mem_live_goOn.2 (.inl ?_))⟩
        · rw [goOn, if_pos hlive]
          exact mem_cons_self
        · rw [goOn, if_pos hlive, mem_addAll]
          exact .inr hn
      · refine ⟨(s, passed), hkept _ _ _ ?_, rfl, fun n hn => .inl hn⟩
        rw [goOn, if_neg hlive]
        exact mem_cons_self
    · exact ih _ hs

/-! ## Following all ways -/

theorem exists_foldlM_growing {α : Type} {P : List NodeId → Prop} (done : α → List NodeId → Prop)
    (f : List NodeId → α → Result (List NodeId)) (xs : List α)
    (hdone : ∀ x live live', live ⊆ live' → done x live → done x live')
    (hstep : ∀ x ∈ xs, ∀ live, P live → ∃ live', f live x = .ok live' ∧ P live' ∧ live ⊆ live' ∧ done x live')
    {live : List NodeId} (hlive : P live) :
    ∃ live', xs.foldlM f live = .ok live' ∧ P live' ∧ live ⊆ live' ∧ ∀ x ∈ xs, done x live' := by
  induction xs generalizing live with
  | nil => exact ⟨live, rfl, hlive, fun _ hn => hn, by simp⟩
  | cons x xs ih =>
    obtain ⟨live₁, hfirst, hlive₁, hsub₁, hdone₁⟩ := hstep x (by simp) live hlive
    obtain ⟨live', hrest, hlive', hsub', hall⟩ := ih (fun y hy => hstep y (by simp [hy])) hlive₁
    refine ⟨live', ?_, hlive', fun n hn => hsub' (hsub₁ hn), forall_mem_cons.2 ⟨?_, hall⟩⟩
    · rw [foldlM_cons, hfirst]
      exact hrest
    · exact hdone x live₁ live' hsub' hdone₁

structure Grown (flow : FlowGraph) (start live : List NodeId) : Prop where
  kept : start ⊆ live
  between : ∀ n ∈ live, flow.Between start n

def Fills (flow : FlowGraph) (start : List NodeId) (id : NodeId) (passed live : List NodeId) : Prop :=
  ∀ n b, flow.Leads id n → Relation.TransGen flow.Joins n b → b ∈ start → n ∈ live ∧ ∀ m ∈ passed, m ∈ live

/-- The nodes passed have been reached from nodes that were live at first, and lead to the current
node. -/
def Passes (flow : FlowGraph) (start : List NodeId) (id : NodeId) (passed : List NodeId) : Prop :=
  ∀ n ∈ passed ++ [id], (∃ a ∈ start, flow.Leads a n) ∧ flow.Leads n id

section Ways

variable {flow : FlowGraph} {start live passed : List NodeId} {id : NodeId}

theorem Grown.goOn (h : Grown flow start live) (hpassed : Passes flow start id passed) :
    Grown flow start ((flow.successors id).foldl (goOn (passed ++ [id])) (live, [])).1 := by
  refine ⟨fun n hn => mem_live_goOn.2 (.inl (h.kept hn)), fun n hn => ?_⟩
  rcases mem_live_goOn.1 hn with hn | ⟨hn, s, hs, hlive⟩
  · exact h.between n hn
  · -- the successor leads to a node that was live at first
    obtain ⟨-, -, b, hb, -, hsb⟩ := h.between s hlive
    obtain ⟨⟨a, ha, han⟩, hnid⟩ := hpassed n hn
    exact ⟨a, ha, b, hb, han, hnid.trans (.head (FlowGraph.mem_successors_iff.1 hs) hsb)⟩

theorem Passes.goOn (h : Passes flow start id passed) (hlive : Grown flow start live)
    (hway : way ∈ ((flow.successors id).foldl (goOn (passed ++ [id])) (live, [])).2) :
    flow.Joins id way.1 ∧ Passes flow start way.1 way.2 := by
  rcases mem_ways_goOn hway with hnil | ⟨hs, hcases⟩
  · cases hnil
  · have hstep : flow.Joins id way.1 := FlowGraph.mem_successors_iff.1 hs
    refine ⟨hstep, fun n hn => ?_⟩
    rcases hcases with heq | ⟨hnil, hsuccessor⟩
    · rw [heq] at hn
      rcases mem_append.1 hn with hn | hn
      · exact ⟨(h n hn).1, (h n hn).2.tail hstep⟩
      · obtain ⟨⟨a, ha, hid⟩, -⟩ := h id (by simp)
        rw [mem_singleton.1 hn]
        exact ⟨⟨a, ha, hid.tail hstep⟩, .refl⟩
    · rw [hnil, nil_append, mem_singleton] at hn
      obtain ⟨a, ha, -, -, hleads, -⟩ := (hlive.goOn h).between way.1 hsuccessor
      rw [hn]
      exact ⟨⟨a, ha, hleads⟩, .refl⟩

theorem fills_of_goOn (hstart : start ⊆ live) {live' : List NodeId}
    (hsub : ((flow.successors id).foldl (goOn (passed ++ [id])) (live, [])).1 ⊆ live')
    (hfills : ∀ way ∈ ((flow.successors id).foldl (goOn (passed ++ [id])) (live, [])).2,
      Fills flow start way.1 way.2 live') : Fills flow start id passed live' := by
  intro n b hn hnb hb
  -- the first edge of the way decides where it goes on
  obtain ⟨s, hs, hsb⟩ := Relation.TransGen.head'_iff.1 (Relation.TransGen.trans_right hn hnb)
  obtain ⟨way, hway, rfl, hway'⟩ := exists_way_goOn (passed ++ [id]) (live, [])
    (FlowGraph.mem_successors_iff.2 hs)
  have hhere : ∀ m ∈ passed ++ [id], m ∈ live' := by
    intro m hm
    rcases Relation.reflTransGen_iff_eq_or_transGen.1 hsb with rfl | hfar
    · exact hsub (mem_live_goOn.2 (.inr ⟨hm, way.1, FlowGraph.mem_successors_iff.2 hs, hstart hb⟩))
    · rcases hway' m hm with hm | hm
      · exact (hfills way hway way.1 b .refl hfar hb).2 m hm
      · exact hsub hm
  refine ⟨?_, fun m hm => hhere m (by simp [hm])⟩
  rcases Relation.ReflTransGen.cases_head hn with rfl | ⟨t, ht, htn⟩
  · exact hhere id (by simp)
  · obtain ⟨way, hway, rfl, -⟩ := exists_way_goOn (passed ++ [id]) (live, [])
      (FlowGraph.mem_successors_iff.2 ht)
    exact (hfills way hway n b htn hnb hb).1

theorem exists_extendWaysGo {fuel : Nat} (hshallow : flow.Shallow fuel id)
    (hlive : Grown flow start live) (hpassed : Passes flow start id passed) :
    ∃ live', extendWaysGo flow.successors fuel id passed live = .ok live' ∧ Grown flow start live' ∧
      live ⊆ live' ∧ Fills flow start id passed live' := by
  induction fuel generalizing id passed live with
  | zero => exact hshallow.elim
  | succ fuel ih =>
    obtain ⟨live', hrun, hgrown, hsub, hfills⟩ := exists_foldlM_growing
      (fun way : NodeId × List NodeId => Fills flow start way.1 way.2)
      (fun live way => extendWaysGo flow.successors fuel way.1 way.2 live)
      ((flow.successors id).foldl (goOn (passed ++ [id])) (live, [])).2
      (fun way live live' hsub hfills n b hn hnb hb =>
        ⟨hsub (hfills n b hn hnb hb).1, fun m hm => hsub ((hfills n b hn hnb hb).2 m hm)⟩)
      (fun way hway live₁ hlive₁ => by
        obtain ⟨hstep, hpassed₁⟩ := hpassed.goOn hlive hway
        exact ih (hshallow way.1 hstep) hlive₁ hpassed₁)
      (hlive.goOn hpassed)
    exact ⟨live', hrun, hgrown, fun n hn => hsub (mem_live_goOn.2 (.inl hn)), fills_of_goOn hlive.kept hsub hfills⟩

end Ways

/-! ## Functions -/

/-- The flow graph joins the given nodes only, and has no cycle. -/
structure Unrolls (flow : FlowGraph) (ids : List NodeId) : Prop where
  acyclic : flow.Acyclic
  closed : flow.Closed
  within : ∀ e ∈ flow.edges, e.1 ∈ ids ∧ e.2.1 ∈ ids

variable {flow : FlowGraph}

theorem Unrolls.mem_of_between {live : List NodeId} (h : Unrolls flow ids)
    (hn : flow.Between live n) : n ∈ live ∨ n ∈ ids := by
  obtain ⟨a, ha, b, hb, han, -⟩ := hn
  rcases Relation.ReflTransGen.cases_tail han with rfl | ⟨s, -, k, hk⟩
  · exact .inl ha
  · exact .inr (h.within _ hk).2

theorem exists_extendInFunction (h : Unrolls flow ids) (live : List NodeId) :
    ∃ live', extendInFunction flow ids live = .ok live' ∧ ∀ n, n ∈ live' ↔ flow.Between live n := by
  have hstart : Grown flow live live := ⟨fun _ hn => hn, fun n hn => .of_mem hn⟩
  obtain ⟨live', hrun, hgrown, -, hfills⟩ := exists_foldlM_growing
    (fun id => Fills flow live id [])
    (fun live id => extendWaysGo flow.successors (flow.nodes.length + 1) id [] live)
    (ids.reverse.filter live.contains)
    (fun id live live' hsub hfills n b hn hnb hb => ⟨hsub (hfills n b hn hnb hb).1, by simp⟩)
    (fun id hid live₁ hlive₁ => by
      have hmem : id ∈ live := elem_iff.1 (mem_filter.1 hid).2
      refine exists_extendWaysGo (h.acyclic.shallow h.closed id) hlive₁ fun n hn => ?_
      rw [nil_append, mem_singleton] at hn
      rw [hn]
      exact ⟨⟨id, hmem, .refl⟩, .refl⟩)
    hstart
  refine ⟨live', hrun, fun n => ⟨hgrown.between n, ?_⟩⟩
  rintro ⟨a, ha, b, hb, han, hnb⟩
  rcases Relation.reflTransGen_iff_eq_or_transGen.1 hnb with rfl | hfar
  · exact hgrown.kept hb
  · -- the way starts at a node of the function, from which it has been followed
    obtain ⟨s, ⟨k, hk⟩, -⟩ := Relation.TransGen.head'_iff.1 (Relation.TransGen.trans_right han hfar)
    have hid : a ∈ ids.reverse.filter live.contains :=
      mem_filter.2 ⟨mem_reverse.2 (h.within _ hk).1, elem_iff.2 ha⟩
    exact (hfills a hid n b han hfar hb).1

/-- The function has collected its nodes, and its flow graph joins them without a cycle. -/
def IsUnrolled (graphs : Table NodeId FlowGraph) (f : Node) : Prop :=
  ∃ ids flow, f.function?.bind (·.children) = some ids ∧ graphs.get? f.id = some flow ∧ Unrolls flow ids

/-- No node is below both functions. -/
def Apart (f h : Node) : Prop :=
  ∀ ids ids', f.function?.bind (·.children) = some ids → h.function?.bind (·.children) = some ids' →
    ids.Disjoint ids'

/-- The node lies between nodes in which the region is live, in the flow graph of one of the
functions. -/
def LiveBetween (graphs : Table NodeId FlowGraph) (fs : List Node) (live : Liveness) (r : Region)
    (n : NodeId) : Prop :=
  ∃ f ∈ fs, ∃ flow, graphs.get? f.id = some flow ∧ flow.Between (live.getD r []) n

theorem exists_mapM_entries {ν ω : Type} {t : Table Region ν} {f : ν → Result ω} (hf : ∀ v, ∃ y, f v = .ok y) :
    ∃ es, (t.entries.mapM fun e => do return (e.1, ← f e.2)) = .ok es ∧ es.map (·.1) = t.keys ∧
      ∀ r, (Table.mk es).get? r = none ∧ t.get? r = none ∨
        ∃ v y, (Table.mk es).get? r = some y ∧ t.get? r = some v ∧ f v = .ok y := by
  obtain ⟨es⟩ := t
  induction es with
  | nil => exact ⟨[], rfl, rfl, fun r => .inl ⟨rfl, rfl⟩⟩
  | cons e es ih =>
    obtain ⟨y, hy⟩ := hf e.2
    obtain ⟨es', hes', hkeys, hget⟩ := ih
    refine ⟨(e.1, y) :: es', ?_, ?_, fun r => ?_⟩
    · rw [mapM_cons, hes', hy]
      rfl
    · rw [map_cons, hkeys]
      rfl
    · by_cases hr : e.1 == r
      · exact .inr ⟨e.2, y, by simp [Table.get?, hr], by simp [Table.get?, hr], hy⟩
      · simpa [Table.get?, hr] using hget r

theorem exists_extendFunction (h : Unrolls flow ids) (live : Liveness) :
    ∃ es, (live.entries.mapM fun e => do return (e.1, ← extendInFunction flow ids e.2)) = .ok es ∧
      es.map (·.1) = live.keys ∧ ∀ r n, n ∈ (Table.mk es).getD r [] ↔ flow.Between (live.getD r []) n := by
  obtain ⟨es, hrun, hkeys, hget⟩ := exists_mapM_entries fun ns => by
    obtain ⟨live', hrun, -⟩ := exists_extendInFunction h ns
    exact ⟨live', hrun⟩
  refine ⟨es, hrun, hkeys, fun r n => ?_⟩
  unfold Table.getD
  rcases hget r with ⟨hnew, hold⟩ | ⟨v, y, hnew, hold, hy⟩
  · simp [hnew, hold, FlowGraph.Between]
  · obtain ⟨live', hrun', hmem⟩ := exists_extendInFunction h v
    rw [hy] at hrun'
    cases hrun'
    rw [hnew, hold]
    exact hmem n

theorem Unrolls.between_of_apart {ids' live live₁ : List NodeId} (h : Unrolls flow ids)
    (hapart : ids'.Disjoint ids) (hlive : ∀ m ∈ live₁, m ∈ live ∨ m ∈ ids')
    (hn : flow.Between live₁ n) : n ∈ live₁ ∨ flow.Between live n := by
  obtain ⟨a, ha, b, hb, han, hnb⟩ := hn
  rcases Relation.ReflTransGen.cases_head han with rfl | ⟨s, ⟨k, hk⟩, -⟩
  · exact .inl ha
  · rcases Relation.ReflTransGen.cases_tail hnb with rfl | ⟨t, -, k', hk'⟩
    · exact .inl hb
    · have hold : ∀ m ∈ live₁, m ∈ ids → m ∈ live := fun m hm hids =>
        (hlive m hm).resolve_right fun h' => hapart h' hids
      exact .inr ⟨a, hold a ha (h.within _ hk).1, b, hold b hb (h.within _ hk').2, han, hnb⟩

theorem exists_foldlM_extend {graphs : Table NodeId FlowGraph} {fs : List Node}
    (hfs : ∀ f ∈ fs, IsUnrolled graphs f) (hapart : fs.Pairwise Apart) (live : Liveness) :
    ∃ live', fs.foldlM (extendAlong graphs) live = .ok live' ∧ live'.keys = live.keys ∧
      ∀ r n, n ∈ live'.getD r [] ↔ n ∈ live.getD r [] ∨ LiveBetween graphs fs live r n := by
  induction fs generalizing live with
  | nil => exact ⟨live, rfl, rfl, fun r n => by simp [LiveBetween]⟩
  | cons f fs ih =>
    obtain ⟨ids, flow, hchildren, hflow, h⟩ := hfs f (by simp)
    obtain ⟨hfirst, hrest⟩ := pairwise_cons.1 hapart
    obtain ⟨es, hes, hkeys₁, hmem₁⟩ := exists_extendFunction h live
    obtain ⟨live', hrun, hkeys', hmem'⟩ := ih (fun f' hf' => hfs f' (by simp [hf'])) hrest ⟨es⟩
    refine ⟨live', ?_, hkeys'.trans hkeys₁, fun r n => ?_⟩
    · refine bind_eq_ok_iff.2 ⟨⟨es⟩, ?_, hrun⟩
      simp only [extendAlong, hflow, hchildren]
      exact bind_eq_ok_iff.2 ⟨es, hes, rfl⟩
    · rw [hmem']
      constructor
      · rintro (hn | ⟨f', hf', flow', hflow', hn⟩)
        · exact .inr ⟨f, by simp, flow, hflow, (hmem₁ r n).1 hn⟩
        · obtain ⟨ids', flow'', hchildren', hflow'', h'⟩ := hfs f' (by simp [hf'])
          obtain rfl : flow'' = flow' := Option.some.inj (hflow''.symm.trans hflow')
          have hlive : ∀ m ∈ (Table.mk es).getD r [], m ∈ live.getD r [] ∨ m ∈ ids := fun m hm =>
            h.mem_of_between ((hmem₁ r m).1 hm)
          rcases h'.between_of_apart (hfirst f' hf' ids ids' hchildren hchildren') hlive hn with hn | hn
          · exact .inr ⟨f, by simp, flow, hflow, (hmem₁ r n).1 hn⟩
          · exact .inr ⟨f', by simp [hf'], flow'', hflow'', hn⟩
      · rintro (hn | ⟨f', hf', flow', hflow', a, ha, b, hb, hleads⟩)
        · exact .inl ((hmem₁ r n).2 (.of_mem hn))
        · rcases mem_cons.1 hf' with rfl | hf'
          · obtain rfl : flow = flow' := Option.some.inj (hflow.symm.trans hflow')
            exact .inl ((hmem₁ r n).2 ⟨a, ha, b, hb, hleads⟩)
          · have hkept : ∀ m ∈ live.getD r [], m ∈ (Table.mk es).getD r [] := fun m hm => (hmem₁ r m).2 (.of_mem hm)
            exact .inr ⟨f', hf', flow', hflow', a, hkept a ha, b, hkept b hb, hleads⟩

/-- Extending the liveness along the flow graphs of functions whose nodes are apart always succeeds.
Afterwards a region is live in a node if and only if it was before, or the node lies on a way
between two nodes of a flow graph in which the region was live before. The regions stay. -/
theorem extendAlongFunctions_between {g : Graph} {graphs : Table NodeId FlowGraph}
    (hgraphs : ∀ f ∈ g.functions, IsUnrolled graphs f) (hapart : g.functions.Pairwise Apart) (live : Liveness) :
    ∃ live', g.extendAlongFunctions graphs live = .ok live' ∧ live'.keys = live.keys ∧
      ∀ r n, n ∈ live'.getD r [] ↔ n ∈ live.getD r [] ∨ LiveBetween graphs g.functions live r n :=
  exists_foldlM_extend hgraphs hapart live

end Graph

/-- A function with the given nodes below it. -/
def functionOver (id : NodeId) (children : List NodeId) : Node :=
  { id, file := 1, number := 0, startLine := 1, endLine := 9, name := none
    body := .function { children := some children } }

/-- Two functions, one of four nodes and one of two. -/
def twoFunctions : Graph where
  nodes := ⟨[("1:0", functionOver "1:0" ["1:1", "1:2", "1:3", "1:4"]), ("2:0", functionOver "2:0" ["2:1", "2:2"])]⟩

/-- Both branches of the first function lead to its last node; the second function has one way. -/
def twoFlows : Table NodeId FlowGraph :=
  let edge (s t : NodeId) : NodeId × NodeId × List Nat := (s, t, [0])
  ⟨[("1:0", { nodes := ["1:1", "1:2", "1:3", "1:4"]
              links := [edge "1:1" "1:2", edge "1:1" "1:3", edge "1:2" "1:4", edge "1:3" "1:4"] }),
    ("2:0", { nodes := ["2:1", "2:2"], links := [edge "2:1" "2:2"] })]⟩

open ParallelPatterns.Graph in
/-- A region that is live in the first and last node of the one function becomes live in its
branches. In the other function it is live in one node only, and stays so. -/
theorem extendAlongFunctions_between_twoFunctions :
    (∀ f ∈ twoFunctions.functions, IsUnrolled twoFlows f) ∧ twoFunctions.functions.Pairwise Apart ∧
      ∃ live', twoFunctions.extendAlongFunctions twoFlows ⟨[("m", ["1:4", "2:1", "1:1"])]⟩ = .ok live' ∧
        live'.keys = ["m"] ∧ "1:2" ∈ live'.getD "m" [] ∧ "1:3" ∈ live'.getD "m" [] ∧
          ¬LiveBetween twoFlows twoFunctions.functions ⟨[("m", ["1:4", "2:1", "1:1"])]⟩ "m" "2:2" := by
  have hfunctions : twoFunctions.functions =
      [functionOver "1:0" ["1:1", "1:2", "1:3", "1:4"], functionOver "2:0" ["2:1", "2:2"]] := rfl
  have hgraphs : ∀ f ∈ twoFunctions.functions, IsUnrolled twoFlows f := by
    intro f hf
    rw [hfunctions, mem_pair] at hf
    rcases hf with rfl | rfl
    · exact ⟨_, _, rfl, rfl, FlowGraph.acyclic_of_cycle? (by decide) rfl, by decide, by decide⟩
    · exact ⟨_, _, rfl, rfl, FlowGraph.acyclic_of_cycle? (by decide) rfl, by decide, by decide⟩
  have hapart : twoFunctions.functions.Pairwise Apart := by
    rw [hfunctions, pairwise_pair]
    rintro ids ids' ⟨⟩ ⟨⟩
    exact disjoint_left.2 (by decide)
  obtain ⟨live', hrun, hkeys, hmem⟩ := extendAlongFunctions_between hgraphs hapart ⟨[("m", ["1:4", "2:1", "1:1"])]⟩
  have hlive : live' = ⟨[("m", ["1:4", "2:1", "1:1", "1:3", "1:2"])]⟩ := by
    have heval : twoFunctions.extendAlongFunctions twoFlows ⟨[("m", ["1:4", "2:1", "1:1"])]⟩ =
        .ok ⟨[("m", ["1:4", "2:1", "1:1", "1:3", "1:2"])]⟩ := rfl
    rw [heval] at hrun
    cases hrun
    rfl
  subst hlive
  refine ⟨hgraphs, hapart, _, hrun, hkeys, by decide, by decide, fun hbetween => ?_⟩
  have hnot : "2:2" ∉ (Table.mk [("m", ["1:4", "2:1", "1:1", "1:3", "1:2"])] : Liveness).getD "m" [] := by decide
  exact hnot ((hmem "m" "2:2").2 (.inr hbetween))

end ParallelPatterns
