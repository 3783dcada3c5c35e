import ParallelPatterns.Proofs.Assembly
import ParallelPatterns.Proofs.Subtree

/-!
# What computing metadata changes

Collecting the nodes below the functions changes what nodes know, and nothing else: not which nodes
there are, of which kind they are and how they are joined. Removing redundant dependences removes
data dependences out of units only; an edge goes if and only if the test picks it among the edges
out of its unit, as they are before the removal.
-/

namespace ParallelPatterns.Graph

open List

variable {g g' : Graph}

/-! ## Nodes -/

/-- The nodes of one graph are those of the other, up to what they know of themselves and of each
other. -/
structure Annotates (g g' : Graph) : Prop where
  links : g'.links = g.links
  nodes : ∃ f : NodeId → Node → Node, (∀ id n, (f id n).id = n.id ∧ (f id n).kind = n.kind) ∧
    g'.nodes = g.nodes.map f

theorem Annotates.refl (g : Graph) : g.Annotates g :=
  ⟨rfl, fun _ n => n, fun _ _ => ⟨rfl, rfl⟩, by simp [Table.map]⟩

theorem Annotates.trans {g'' : Graph} (h : g.Annotates g') (h' : g'.Annotates g'') : g.Annotates g'' := by
  obtain ⟨f, hf, hnodes⟩ := h.nodes
  obtain ⟨f', hf', hnodes'⟩ := h'.nodes
  refine ⟨h'.links.trans h.links, fun id n => f' id (f id n), fun id n => ?_, ?_⟩
  · exact ⟨(hf' id _).1.trans (hf id n).1, (hf' id _).2.trans (hf id n).2⟩
  · rw [hnodes', hnodes, Table.map_map]

theorem Annotates.keys (h : g.Annotates g') : g'.nodes.keys = g.nodes.keys := by
  obtain ⟨f, -, hnodes⟩ := h.nodes
  rw [hnodes, Table.keys_map]

theorem Annotates.linkedEdges (h : g.Annotates g') : g'.linkedEdges = g.linkedEdges := by
  rw [Graph.linkedEdges, h.links, Graph.linkedEdges]

theorem Annotates.map_id_nodesOf (h : g.Annotates g') (kinds : List NodeKind) :
    (g'.nodesOf kinds).map (·.id) = (g.nodesOf kinds).map (·.id) := by
  obtain ⟨f, hf, hnodes⟩ := h.nodes
  simp only [nodesOf, allNodes, hnodes, Table.values, Table.map, map_map, filter_map]
  have hkind : ((fun n : Node => kinds.contains n.kind) ∘ (Prod.snd ∘ fun e : NodeId × Node => (e.1, f e.1 e.2))) =
      (fun n : Node => kinds.contains n.kind) ∘ Prod.snd := by
    funext e
    simp only [Function.comp, (hf e.1 e.2).2]
  rw [hkind]
  exact map_congr_left fun e _ => (hf e.1 e.2).1

theorem WellFormed.annotates (h : g.WellFormed) (hg : g.Annotates g') : g'.WellFormed := by
  obtain ⟨f, hf, hnodes⟩ := hg.nodes
  refine h.of_map (fun id n => (hf id n).1) (fun id => ?_) hg.links
  rw [node?, hnodes, Table.get?_map, node?]

theorem annotates_modifyFunction (n : Node) (f : FunctionBody → FunctionBody) :
    (n.modifyFunction f).id = n.id ∧ (n.modifyFunction f).kind = n.kind := by
  unfold Node.modifyFunction
  split
  · rename_i b hb
    simp [Node.kind, hb]
  · exact ⟨rfl, rfl⟩

theorem function?_modifyFunction (n : Node) (m : FunctionBody → FunctionBody) :
    (n.modifyFunction m).function? = n.function?.map m := by
  cases hbody : n.body <;> simp [Node.modifyFunction, Node.function?, hbody]

theorem annotates_modifyNode (g : Graph) (id : NodeId) {f : Node → Node}
    (hf : ∀ n, (f n).id = n.id ∧ (f n).kind = n.kind) : g.Annotates (g.modifyNode id f) := by
  refine ⟨rfl, _, fun id' n => ?_, Table.modify_eq_map g.nodes id f⟩
  split
  · exact hf n
  · exact ⟨rfl, rfl⟩

theorem collectFunction_eq_ok {f : NodeId} (h : g.collectFunction f = .ok g') :
    ∃ ids g₁, g.descendants f = .ok ids ∧ g.Annotates g₁ ∧ g.Annotates g' ∧
      (∀ id n, g₁.node? id = some n → ∃ n₀, g.node? id = some n₀ ∧ n₀.function? = n.function?) ∧
        ∀ id, g'.node? id = (g₁.node? id).map fun n =>
          if f == id then
            n.modifyFunction fun b => { b with children := some ids, reach := g₁.successorReach ids b.reach }
          else n := by
  obtain ⟨ids, hids, h⟩ := bind_eq_ok_iff.1 h
  cases h
  let tell : NodeId → Node → Node := fun id n => if ids.contains id then { n with parentFunction := some f } else n
  have htell : ∀ id n, (tell id n).id = n.id ∧ (tell id n).kind = n.kind ∧ (tell id n).function? = n.function? := by
    intro id n
    dsimp only [tell]
    split <;> exact ⟨rfl, rfl, rfl⟩
  have h₁ : g.Annotates { g with nodes := g.nodes.map tell } :=
    ⟨rfl, tell, fun id n => ⟨(htell id n).1, (htell id n).2.1⟩, rfl⟩
  refine ⟨ids, { g with nodes := g.nodes.map tell }, hids, h₁, h₁.trans ?_, ?_, ?_⟩
  · exact annotates_modifyNode _ f fun n => annotates_modifyFunction n _
  · intro id n hn
    obtain ⟨n₀, hn₀, rfl⟩ := Option.map_eq_some_iff.1 ((Table.get?_map tell g.nodes id).symm.trans hn)
    exact ⟨n₀, hn₀, (htell id n₀).2.2.symm⟩
  · intro id
    refine (Table.get?_modify _ f id _).trans ?_
    by_cases hid : f == id
    · simp only [hid]
      rfl
    · simp only [hid, Bool.false_eq_true, if_false, Option.map_id']
      rfl

theorem computeMetadata_eq_ok (h : g.computeMetadata = .ok g') :
    ∃ g₁, g.functions.foldlM (fun g f => g.collectFunction f.id) g = .ok g₁ ∧ g.Annotates g₁ ∧
      g' = g₁.removeRepeated := by
  obtain ⟨g₁, hcollect, h⟩ := bind_eq_ok_iff.1 h
  cases h
  refine ⟨g₁, hcollect, foldlM_keeps (fun b f b' hb hf => ?_) (.refl g) hcollect, rfl⟩
  obtain ⟨-, -, -, -, hb', -⟩ := collectFunction_eq_ok hf
  exact hb.trans hb'

theorem WellFormed.computeMetadata (h : g.WellFormed) (hg : g.computeMetadata = .ok g') : g'.WellFormed := by
  obtain ⟨g₁, -, hannotates, rfl⟩ := computeMetadata_eq_ok hg
  unfold removeRepeated removeRedundant
  exact ((h.annotates hannotates).removeEdges _).removeEdges _

theorem Linked.annotates (h : g.Linked) (hg : g.Annotates g') : g'.Linked :=
  ⟨hg.links ▸ h.pairs, hg.links ▸ h.keys⟩

/-! ## Redundant dependences -/

/-- The edge is a data dependence out of a unit. -/
structure LeavesUnit (g : Graph) (e : Edge) : Prop where
  data : e.dep.edge = .data
  unit : e.source ∈ g.units.map (·.id)

theorem mem_linkedEdges_removeRedundant (h : g.Linked) {test : List Edge → Edge → Bool} {e : Edge} :
    e ∈ (g.removeRedundant test).linkedEdges ↔
      e ∈ g.linkedEdges ∧ ¬(g.LeavesUnit e ∧ test (g.outData e.source) e) := by
  rw [removeRedundant, linkedEdges_removeEdges, mem_filter]
  refine and_congr_right fun he => ?_
  rw [Bool.not_eq_true', ← Bool.not_eq_true, not_iff_not, any_eq_true]
  constructor
  · rintro ⟨r, hr, hsame⟩
    obtain ⟨n, hn, hr⟩ := mem_flatMap.1 hr
    obtain ⟨hr, htest⟩ := mem_filter.1 hr
    obtain ⟨hsource, hredge, hdata⟩ := mem_outData_iff.1 hr
    -- nodes and key tell the edge, so what is removed is the edge that was picked
    obtain rfl : e = r := h.eq_of_same he hredge hsame
    rw [← hsource] at htest
    exact ⟨⟨hdata, mem_map.2 ⟨n, hn, hsource.symm⟩⟩, htest⟩
  · rintro ⟨⟨hdata, hunit⟩, htest⟩
    obtain ⟨n, hn, hid⟩ := mem_map.1 hunit
    refine ⟨e, mem_flatMap.2 ⟨n, hn, mem_filter.2 ⟨?_, ?_⟩⟩, by simp [Edge.same]⟩
    · exact mem_outData_iff.2 ⟨hid.symm, he, hdata⟩
    · rw [hid]
      exact htest

theorem Linked.removeRedundant (h : g.Linked) (test : List Edge → Edge → Bool) :
    (g.removeRedundant test).Linked := by
  unfold Graph.removeRedundant
  exact h.removeEdges _

theorem mem_linkedEdges_removeRepeated (h : g.Linked) {e : Edge} (he : e.dep.edge ≠ .data) :
    e ∈ g.removeRepeated.linkedEdges ↔ e ∈ g.linkedEdges := by
  rw [removeRepeated, mem_linkedEdges_removeRedundant (h.removeRedundant _), mem_linkedEdges_removeRedundant h]
  constructor
  · exact fun hmem => hmem.1.1
  · exact fun hmem => ⟨⟨hmem, fun hr => he hr.1.data⟩, fun hr => he hr.1.data⟩

end ParallelPatterns.Graph
