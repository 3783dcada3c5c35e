import Mathlib.Data.List.Nodup
import ParallelPatterns.Detection
import ParallelPatterns.Input.Load
import ParallelPatterns.Proofs.Computation
import ParallelPatterns.Proofs.Table

/-!
# Well-formed program graphs

In a well-formed graph every node stands under its own identifier, and every edge leads to a node of
the graph. Removing nodes and edges keeps a graph well formed.
-/

namespace ParallelPatterns.Graph

open List

variable {g g' : Graph}

variable {id : NodeId} {n : Node} {f : NodeId → Node → Node}

theorem node_eq_ok_iff : g.node id = .ok n ↔ g.node? id = some n := by
  unfold node
  cases g.node? id <;> simp

/-- Every node stands under its own identifier. -/
def Keyed (g : Graph) : Prop := ∀ id n, g.node? id = some n → n.id = id

/-- Every node stands under its own identifier, and every edge leads to a node. -/
structure WellFormed (g : Graph) : Prop where
  keyed : g.Keyed
  closed : ∀ l ∈ g.links, (g.node? l.target).isSome

theorem WellFormed.of_entries (hkeyed : ∀ e ∈ g.nodes.entries, e.2.id = e.1)
    (hclosed : ∀ l ∈ g.links, g.nodes.contains l.target) : g.WellFormed := by
  refine ⟨fun id n hn => hkeyed (id, n) (Table.mem_of_get? hn), fun l hl => ?_⟩
  rw [node?, ← Table.contains_eq_isSome]
  exact hclosed l hl

theorem WellFormed.node?_of_mem (h : g.WellFormed) (hkeys : g.nodes.keys.Nodup)
    (hn : n ∈ g.allNodes) : g.node? n.id = some n := by
  obtain ⟨⟨id, n'⟩, he, rfl⟩ := mem_map.1 hn
  have hget : g.node? id = some n' := Table.get?_of_mem hkeys he
  rw [h.keyed id n' hget]
  exact hget

theorem mem_allNodes_of_node? (h : g.node? id = some n) : n ∈ g.allNodes :=
  mem_map.2 ⟨(id, n), Table.mem_of_get? h, rfl⟩

/-- Different nodes have different numbers, as they do where all identifiers are written without
zeros in front. -/
def NumbersDiffer (g : Graph) : Prop := (g.allNodes.map fun n => (n.file, n.number)).Nodup

theorem NumbersDiffer.eq_of_alike (h : g.NumbersDiffer) {m : Node} {id' : NodeId}
    (hn : g.node? id = some n) (hm : g.node? id' = some m) (halike : n.alike m) : n = m :=
  inj_on_of_nodup_map h (mem_allNodes_of_node? hn) (mem_allNodes_of_node? hm) (by simpa [Node.alike] using halike)

theorem nodup_nodesOf (hkeyed : g.Keyed) (hkeys : g.nodes.keys.Nodup) (kinds : List NodeKind) :
    ((g.nodesOf kinds).map (·.id)).Nodup := by
  have hids : g.allNodes.map (·.id) = g.nodes.keys := by
    rw [allNodes, Table.values, map_map]
    exact map_congr_left fun e he => hkeyed e.1 e.2 (Table.get?_of_mem hkeys he)
  exact (filter_sublist.map _).nodup (hids ▸ hkeys)

/-! ## Changing nodes -/

theorem Keyed.of_map (h : g.Keyed) (hf : ∀ id n, (f id n).id = n.id)
    (hnodes : ∀ id, g'.node? id = (g.node? id).map (f id)) : g'.Keyed := by
  intro id n hn
  rw [hnodes, Option.map_eq_some_iff] at hn
  obtain ⟨m, hm, rfl⟩ := hn
  rw [hf]
  exact h id m hm

section

variable (h : g.WellFormed)
include h

theorem WellFormed.of_map (hf : ∀ id n, (f id n).id = n.id) (hnodes : ∀ id, g'.node? id = (g.node? id).map (f id))
    (hlinks : g'.links = g.links) : g'.WellFormed := by
  refine ⟨h.keyed.of_map hf hnodes, fun l hl => ?_⟩
  rw [hnodes, Option.isSome_map]
  exact h.closed l (hlinks ▸ hl)

/-! ## Changing edges -/

theorem WellFormed.removeEdges (p : Edge → Bool) : (g.removeEdges p).WellFormed := by
  refine ⟨h.keyed, fun l hl => ?_⟩
  obtain ⟨hl, -⟩ := mem_filter.1 hl
  obtain ⟨l', hl', rfl⟩ := mem_map.1 hl
  exact h.closed l' hl'

theorem WellFormed.target_known {e : Edge} (he : e ∈ g.outEdges id) : (g.node? e.target).isSome := by
  rw [outEdges, mem_flatMap] at he
  obtain ⟨l, hl, he⟩ := he
  obtain ⟨p, -, rfl⟩ := mem_map.1 he
  exact h.closed l (mem_filter.1 hl).1

/-! ## Making a graph -/

end

theorem Keyed.addNode (h : g.Keyed) (next : Nat) (node : Node) : (g.addNode next node).1.Keyed := by
  intro id n hn
  have hnodes : (g.addNode next node).1.node? id =
      if (placeNode next node).1.id == id then some (placeNode next node).1 else g.node? id :=
    Table.get?_insert g.nodes _ id _
  rw [hnodes] at hn
  split at hn
  · rename_i hid
    cases hn
    exact LawfulBEq.eq_of_beq hid
  · exact h id n hn

theorem Keyed.addNodes {ns : List Node} (h : g.Keyed) (next : Nat) :
    (ns.foldl (fun (g, next) n => g.addNode next n) (g, next)).1.Keyed :=
  foldlRecOn ns (motive := fun p : Graph × Nat => p.1.Keyed) _ h
    fun p hp n _ => hp.addNode p.2 n

theorem Keyed.addLoopCounts (h : g.Keyed) (loops : Table LineId LoopCount) : (g.addLoopCounts loops).Keyed := by
  refine h.of_map ?_ (Table.get?_map _ g.nodes)
  intro id n
  split <;> rfl

end ParallelPatterns.Graph
