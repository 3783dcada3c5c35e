import Mathlib.Data.List.Induction
import ParallelPatterns.Graph.RecursiveCalls
import ParallelPatterns.Proofs.DoAll

/-!
# The order of the nodes below a node

The nodes of some kinds below a node are listed in the order in which a recursion over child and
call edges meets them: a node, then all that is new below its first edge, then what is still new
below the second one. Each is listed once, also when calls run in circles, edges run side by side or
a node has several parents. The recursion that collects their identifiers in a list, without a bound
on its depth, ends and finds the same.
-/

namespace ParallelPatterns.Graph

/-- The nodes of the given kinds below a node are what a recursion over the child and call edges
meets, each node once and in its order. -/
theorem subtreeOf_preorder {g : Graph} (hg : g.WellFormed) {root : Node}
    (hroot : g.node? root.id = some root) (kinds : List NodeKind) :
    ∃ ids, Search.Preorder (fun id => (g.outEdgesOf id [.child, .call]).map (·.target)) [] [root.id] ids ∧
      ids.Nodup ∧ (∀ id, id ∈ ids ↔ g.Below root.id id) ∧
      g.subtreeOf root kinds = ids.filterMap (fun id => (g.node? id).filter fun n => kinds.contains n.kind) ∧
      (∀ n, n ∈ g.subtreeOf root kinds ↔ g.Below root.id n.id ∧ g.node? n.id = some n ∧ n.kind ∈ kinds) ∧
      (g.subtreeOf root kinds).Nodup := by
  have hstart : (g.node? root.id).isSome = true := by rw [hroot]; rfl
  obtain ⟨hpreorder, hnodup, hbelow⟩ := reachedIds_preorder hg [.child, .call] hstart
  refine ⟨_, hpreorder, hnodup, hbelow, List.filter_filterMap, fun n => ?_, ?_⟩
  · rw [subtreeOf, List.mem_filter, mem_subtree_iff hg hroot, List.contains_iff_mem, and_assoc]
  · refine (List.Nodup.filterMap (fun a b n ha hb => ?_) hnodup).filter _
    -- a node stands under its own identifier only
    rw [← hg.keyed a n ha, ← hg.keyed b n hb]

/-- The first unit of the loop calls the function around it, which is met before the second unit. -/
theorem subtreeOf_preorder_recursiveLoop :
    recursiveGraph.Below "1:2" "1:1" ∧
      (recursiveGraph.subtreeOf recursiveLoop [.unit, .function]).map (·.id) = ["1:2", "1:0", "1:3"] ∧
      ∃ ids, Search.Preorder (fun id => (recursiveGraph.outEdgesOf id [.child, .call]).map
        (·.target)) [] ["1:1"] ids ∧
        ids.Nodup ∧ recursiveGraph.subtreeOf recursiveLoop [.unit, .function] =
          ids.filterMap fun id => (recursiveGraph.node? id).filter fun n =>
            [NodeKind.unit, .function].contains n.kind := by
  have hg : recursiveGraph.WellFormed := .of_entries (by decide) (by decide)
  have hroot : recursiveGraph.node? recursiveLoop.id = some recursiveLoop := rfl
  obtain ⟨ids, hpreorder, hnodup, -, hlist, -⟩ := subtreeOf_preorder hg hroot [.unit, .function]
  have hcall : recursiveGraph.Below "1:0" "1:1" := .single (by decide)
  exact ⟨.head (by decide) hcall, rfl, ids, hpreorder, hnodup, hlist⟩

end ParallelPatterns.Graph

/-! ## Collected identifiers -/

namespace ParallelPatterns

open List

theorem addAll_append {α : Type} [BEq α] [LawfulBEq α] {xs ys : List α} (h : (xs ++ ys).Nodup) :
    addAll xs (xs ++ ys) = xs ++ ys := by
  induction ys using reverseRecOn with
  | nil =>
    rw [append_nil]
    refine foldlRecOn xs addNew (motive := (· = xs)) rfl fun s hs x hx => ?_
    subst hs
    exact if_pos (elem_iff.2 hx)
  | append_singleton ys y ih =>
    rw [← append_assoc] at h ⊢
    have hnew : y ∉ xs ++ ys := fun hy => (nodup_append.1 h).2.2 y hy y (mem_singleton_self y) rfl
    rw [addAll, foldl_append]
    show addNew (addAll xs (xs ++ ys)) y = _
    rw [ih h.of_append_left]
    exact if_neg (mt elem_iff.1 hnew)

namespace Graph

variable {g : Graph} (hg : g.WellFormed)
include hg

theorem collectIds_of_notMem {id : NodeId} {found : List NodeId} (hid : id ∉ found) :
    g.collectIds id found = ((g.outEdgesOf id [.child, .call]).map (·.target)).foldlM (fun found c => do
      return addAll found (← g.collectIds c found)) (found ++ [id]) := by
  rw [collectIds, if_neg (by simpa using hid), childrenOrCalled, map_id_targets hg]

/-- What the collection adds to the identifiers found before is what a recursion visits. -/
theorem foldlM_collectIds {found ids out : List NodeId}
    (h : Search.Preorder (fun id => (g.outEdgesOf id [.child, .call]).map (·.target)) found ids out)
    (hnodup : found.Nodup) :
    ids.foldlM (fun found c => do return addAll found (← g.collectIds c found)) found = some (found ++ out) := by
  induction h with
  | nil => simp
  | @skip found ids out id hid _ ih =>
    have hknown : g.collectIds id found = some found := by
      rw [collectIds, if_pos (by simpa using hid)]
    have hsame : addAll found (found ++ []) = found ++ [] := addAll_append (by rwa [append_nil])
    rw [append_nil] at hsame
    rw [foldlM_cons, hknown]
    simpa [hsame] using ih hnodup
  | @visit found ids below rest id hid hbelow hrest ihbelow ihrest =>
    have hfirst : (found ++ [id]).Nodup := by simpa using hnodup.concat hid
    have hvisited := hbelow.nodup hfirst
    have hadd : addAll found (found ++ [id] ++ below) = found ++ [id] ++ below := by
      rw [append_assoc] at hvisited ⊢
      exact addAll_append hvisited
    rw [foldlM_cons, collectIds_of_notMem hg hid, ihbelow hfirst]
    show ids.foldlM _ (addAll found (found ++ [id] ++ below)) = _
    rw [hadd, ihrest hvisited]
    simp

/-- The collected identifiers below a node are those of the nodes below it, each of them once, and
the collection comes to its end also when calls run in circles. -/
theorem collectIds_subtree {n : Node} (hn : g.node? n.id = some n) :
    ∃ ids, g.collectIds n.id [] = some ids ∧ ids.Nodup ∧ ∀ id, id ∈ ids ↔ id ∈ (g.subtree n).map (·.id) := by
  have hstart : (g.node? n.id).isSome = true := by rw [hn]; rfl
  obtain ⟨hpreorder, hnodup, hbelow⟩ := reachedIds_preorder hg [.child, .call] hstart
  have hids : (g.subtree n).map (·.id) = g.reachedIds [.child, .call] n.id := by
    refine map_id_nodesAt hg fun id hid => mem_keys_iff.1 ?_
    exact ((hbelow id).1 hid).mem_of_closed (fun x _ => hg.targets_subset _ x) (mem_keys_iff.2 hstart)
  refine ⟨_, ?_, hnodup, fun id => by rw [hids]⟩
  generalize g.reachedIds [.child, .call] n.id = ids at hpreorder
  cases hpreorder with
  | skip hmem => cases hmem
  | visit hid hbelow hrest =>
    cases hrest
    rw [collectIds_of_notMem hg hid, foldlM_collectIds hg hbelow (by simp)]
    simp

omit hg in
/-- The collection ends on the loop whose first unit calls the function around it. -/
theorem collectIds_subtree_recursiveLoop :
    recursiveGraph.Below "1:2" "1:1" ∧ ∃ ids, recursiveGraph.collectIds "1:1" [] = some ids ∧
      ids.Nodup ∧ ∀ id, id ∈ ids ↔ id ∈ ["1:1", "1:2", "1:0", "1:3"] := by
  have hg : recursiveGraph.WellFormed := .of_entries (by decide) (by decide)
  have hcall : recursiveGraph.Below "1:0" "1:1" := .single (by decide)
  exact ⟨.head (by decide) hcall, collectIds_subtree hg (n := recursiveLoop) rfl⟩

end Graph

end ParallelPatterns
