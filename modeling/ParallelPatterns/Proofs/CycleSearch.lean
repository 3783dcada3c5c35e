import Mathlib.Algebra.Order.BigOperators.Group.List
import Mathlib.Algebra.Order.Ring.Nat
import Mathlib.Data.List.Perm.Subperm
import Mathlib.Data.List.TakeWhile
import Mathlib.Order.WellFounded
import ParallelPatterns.Device.Unroll

/-!
# Finding cycles

The depth-first search of a flow graph finds a cycle if and only if there is one. What it finds is a
closed way that passes no node twice. If it finds none, then everything it has visited is
accessible: from there every way ends. The turns suffice, since the way to a node never has more
nodes than the graph.

An edge is redirected by removing it and adding one edge to each of its new targets, which changes
the sum of the weights of the edges by the weights of these.
-/

open List

namespace ParallelPatterns.FlowGraph

variable {g : FlowGraph} {e : NodeId × NodeId × Nat}

/-- An edge leads from the first node to the second one. -/
def Joins (g : FlowGraph) (s t : NodeId) : Prop := ∃ k, (s, t, k) ∈ g.edges

/-- A way over any number of edges leads from the first node to the second one. -/
def Leads (g : FlowGraph) : NodeId → NodeId → Prop := Relation.ReflTransGen g.Joins

/-- No way leads from a node back to it. -/
def Acyclic (g : FlowGraph) : Prop := ∀ n, ¬Relation.TransGen g.Joins n n

/-- The edges lead to nodes of the graph. -/
def Closed (g : FlowGraph) : Prop := ∀ e ∈ g.edges, e.2.1 ∈ g.nodes

instance (g : FlowGraph) : Decidable g.Closed := inferInstanceAs (Decidable (∀ e ∈ g.edges, e.2.1 ∈ g.nodes))

theorem mem_outEdges_iff {id : NodeId} : e ∈ g.outEdges id ↔ e ∈ g.edges ∧ e.1 = id := by
  simp only [outEdges, edges, mem_flatMap, mem_filter, mem_map, beq_iff_eq]
  constructor
  · rintro ⟨l, ⟨hl, rfl⟩, k, hk, rfl⟩
    exact ⟨⟨l, hl, k, hk, rfl⟩, rfl⟩
  · rintro ⟨⟨l, hl, k, hk, rfl⟩, rfl⟩
    exact ⟨l, ⟨hl, rfl⟩, k, hk, rfl⟩

/-! ### Redirecting an edge -/

def redirect (g : FlowGraph) (e : NodeId × NodeId × Nat) (targets : List NodeId) : FlowGraph :=
  targets.foldl (fun f t => f.addEdge e.1 t) (g.removeEdge e)

theorem edges_removeEdge (g : FlowGraph) (e : NodeId × NodeId × Nat) :
    (g.removeEdge e).edges = g.edges.filter (· != e) := by
  -- a link without keys has no edges
  have hlinks : ∀ ls : List (NodeId × NodeId × List Nat),
      (ls.filter fun l => !l.2.2.isEmpty).flatMap (fun l => l.2.2.map fun k => (l.1, l.2.1, k)) =
        ls.flatMap fun l => l.2.2.map fun k => (l.1, l.2.1, k) := by
    intro ls
    induction ls with
    | nil => rfl
    | cons l ls ih => by_cases hempty : l.2.2 = [] <;> simp [hempty, ih]
  rw [edges, removeEdge, hlinks, flatMap_map, edges, filter_flatMap]
  refine flatMap_congr fun l _ => ?_
  by_cases hl : (l.1 == e.1 && l.2.1 == e.2.1)
  · rw [if_pos hl, filter_map]
    rw [Bool.and_eq_true, beq_iff_eq, beq_iff_eq] at hl
    congr 1
    refine filter_congr fun k _ => ?_
    rw [Bool.eq_iff_iff, Function.comp_apply, bne_iff_ne, bne_iff_ne, Ne, Ne, Prod.ext_iff, Prod.ext_iff]
    simp [hl.1, hl.2]
  · rw [if_neg hl, eq_comm, filter_eq_self]
    intro x hx
    obtain ⟨k, -, rfl⟩ := mem_map.1 hx
    rw [bne_iff_ne]
    rintro rfl
    simp at hl

theorem edges_addEdge (g : FlowGraph) (s t : NodeId) : ∃ k, (g.addEdge s t).edges ~ (s, t, k) :: g.edges := by
  unfold addEdge edges
  induction g.links with
  | nil => exact ⟨0, .refl _⟩
  | cons l ls ih =>
    rw [addToLinks]
    by_cases hl : (l.1 == s && l.2.1 == t)
    · rw [if_pos hl]
      rw [Bool.and_eq_true, beq_iff_eq, beq_iff_eq] at hl
      obtain ⟨rfl, rfl⟩ := hl
      refine ⟨Link.nextKey l.2.2, ?_⟩
      simp only [flatMap_cons, map_append, append_assoc]
      exact perm_middle
    · rw [if_neg hl]
      obtain ⟨k, hk⟩ := ih
      refine ⟨k, ?_⟩
      exact (hk.append_left _).trans perm_middle

theorem edges_redirect (g : FlowGraph) (e : NodeId × NodeId × Nat) (targets : List NodeId) :
    ∃ new, (g.redirect e targets).edges ~ new ++ g.edges.filter (· != e) ∧
      new.map (fun x => (x.1, x.2.1)) ~ targets.map fun t => (e.1, t) := by
  rw [← edges_removeEdge, redirect]
  generalize g.removeEdge e = f
  induction targets generalizing f with
  | nil => exact ⟨[], .refl _, .refl _⟩
  | cons t targets ih =>
    obtain ⟨k, hk⟩ := edges_addEdge f e.1 t
    obtain ⟨new, hedges, hnew⟩ := ih (f.addEdge e.1 t)
    refine ⟨(e.1, t, k) :: new, ?_, hnew.cons (e.1, t)⟩
    exact hedges.trans ((hk.append_left new).trans perm_middle)

theorem mem_edges_redirect {x : NodeId × NodeId × Nat} {targets : List NodeId}
    (hx : x ∈ (g.redirect e targets).edges) : x ∈ g.edges ∨ x.1 = e.1 ∧ x.2.1 ∈ targets := by
  obtain ⟨new, hedges, hnew⟩ := edges_redirect g e targets
  rcases mem_append.1 (hedges.mem_iff.1 hx) with hx | hx
  · have hends := hnew.mem_iff.1 (mem_map.2 ⟨x, hx, rfl⟩)
    obtain ⟨t, ht, heq⟩ := mem_map.1 hends
    rw [Prod.mk.injEq] at heq
    exact .inr ⟨heq.1.symm, heq.2 ▸ ht⟩
  · exact .inl (mem_filter.1 hx).1

theorem mem_edges_redirect_of_ne {x : NodeId × NodeId × Nat} (targets : List NodeId)
    (hx : x ∈ g.edges) (hne : x ≠ e) : x ∈ (g.redirect e targets).edges := by
  obtain ⟨new, hedges, -⟩ := edges_redirect g e targets
  exact hedges.mem_iff.2 (mem_append_right _ (mem_filter.2 ⟨hx, bne_iff_ne.2 hne⟩))

theorem joins_redirect (g : FlowGraph) (e : NodeId × NodeId × Nat) {targets : List NodeId}
    {t : NodeId} (ht : t ∈ targets) : (g.redirect e targets).Joins e.1 t := by
  obtain ⟨new, hedges, hnew⟩ := edges_redirect g e targets
  obtain ⟨x, hx, hends⟩ := mem_map.1 (hnew.mem_iff.2 (mem_map.2 ⟨t, ht, rfl⟩))
  rw [Prod.mk.injEq] at hends
  refine ⟨x.2.2, hedges.mem_iff.2 (mem_append_left _ ?_)⟩
  rw [← hends.1, ← hends.2]
  exact hx

theorem Closed.redirect (h : g.Closed) (e : NodeId × NodeId × Nat) (targets : List NodeId) :
    (g.redirect e targets).Closed := by
  have hremove : (g.removeEdge e).Closed := by
    intro x hx
    rw [edges_removeEdge] at hx
    exact h x (mem_filter.1 hx).1
  refine foldlRecOn targets _ hremove fun f hf t _ x hx => ?_
  obtain ⟨k, hk⟩ := edges_addEdge f e.1 t
  show x.2.1 ∈ addNew (addNew f.nodes e.1) t
  rw [mem_addNew, mem_addNew]
  rcases mem_cons.1 (hk.mem_iff.1 hx) with rfl | hx
  · exact .inr rfl
  · exact .inl (.inl (hf x hx))

def load (w : NodeId → NodeId → Nat) (g : FlowGraph) : Nat := (g.edges.map fun x => w x.1 x.2.1).sum

theorem add_sum_filter_ne_le {α : Type} [BEq α] [LawfulBEq α] (f : α → Nat) {xs : List α} {x : α}
    (hx : x ∈ xs) : f x + ((xs.filter (· != x)).map f).sum ≤ (xs.map f).sum := by
  induction xs with
  | nil => cases hx
  | cons y ys ih =>
    rw [map_cons, sum_cons]
    by_cases hy : y = x
    · have hsublist : ((ys.filter (· != x)).map f).Sublist (ys.map f) := filter_sublist.map f
      have hsum := hsublist.sum_le_sum fun _ _ => Nat.zero_le _
      rw [filter_cons_of_neg (by simp [hy]), hy]
      omega
    · have hrest := ih ((mem_cons.1 hx).resolve_left fun h => hy h.symm)
      rw [filter_cons_of_pos (by simpa using hy), map_cons, sum_cons]
      omega

theorem load_redirect_le (w : NodeId → NodeId → Nat) (he : e ∈ g.edges) (targets : List NodeId) :
    (g.redirect e targets).load w + w e.1 e.2.1 ≤ g.load w + (targets.map (w e.1)).sum := by
  obtain ⟨new, hedges, hnew⟩ := edges_redirect g e targets
  have hall : (g.redirect e targets).load w =
      (new.map fun x => w x.1 x.2.1).sum + ((g.edges.filter (· != e)).map fun x => w x.1 x.2.1).sum := by
    rw [load, (hedges.map _).sum_eq, map_append, sum_append]
  have hadded : (new.map fun x => w x.1 x.2.1).sum = (targets.map (w e.1)).sum := by
    have hends := (hnew.map fun p => w p.1 p.2).sum_eq
    rw [map_map, map_map] at hends
    exact hends
  have hkept := add_sum_filter_ne_le (fun x => w x.1 x.2.1) he
  rw [hall, load]
  omega

/-! ## The search -/

open List

variable {g : FlowGraph} {s t : NodeId} {way c : List (NodeId × NodeId × Nat)} {e : NodeId × NodeId × Nat}
  {visited : List NodeId}

/-! ### Ways -/

def IsWay (g : FlowGraph) : NodeId → List (NodeId × NodeId × Nat) → NodeId → Prop
  | s, [], t => s = t
  | s, e :: es, t => e.1 = s ∧ e ∈ g.edges ∧ g.IsWay e.2.1 es t

theorem isWay_append {xs ys : List (NodeId × NodeId × Nat)} :
    g.IsWay s (xs ++ ys) t ↔ ∃ m, g.IsWay s xs m ∧ g.IsWay m ys t := by
  induction xs generalizing s with
  | nil => simp [IsWay]
  | cons e xs ih =>
    rw [cons_append, IsWay, ih]
    simp only [IsWay, and_assoc, exists_and_left]

theorem IsWay.snoc (h : g.IsWay s way e.1) (he : e ∈ g.edges) : g.IsWay s (way ++ [e]) e.2.1 :=
  isWay_append.2 ⟨e.1, h, rfl, he, rfl⟩

theorem IsWay.mem_edges (h : g.IsWay s way t) : ∀ e ∈ way, e ∈ g.edges := by
  induction way generalizing s with
  | nil => simp
  | cons e way ih => exact forall_mem_cons.2 ⟨h.2.1, ih h.2.2⟩

theorem IsWay.sources_append (h : g.IsWay s way t) : way.map (·.1) ++ [t] = s :: way.map (·.2.1) := by
  induction way generalizing s with
  | nil => rw [IsWay] at h; simp [h]
  | cons e way ih => rw [map_cons, cons_append, ih h.2.2, h.1, map_cons]

theorem IsWay.leads {R : NodeId → NodeId → Prop}
    (h : g.IsWay s way t) (hR : ∀ e ∈ way, Relation.ReflTransGen R e.1 e.2.1) :
    ∀ e ∈ way, Relation.ReflTransGen R s e.1 ∧ Relation.ReflTransGen R e.2.1 t := by
  have hwhole : ∀ {s : NodeId} {way : List (NodeId × NodeId × Nat)}, g.IsWay s way t →
      (∀ e ∈ way, Relation.ReflTransGen R e.1 e.2.1) → Relation.ReflTransGen R s t := by
    intro s way h hR
    induction way generalizing s with
    | nil => exact h ▸ .refl
    | cons e way ih =>
      obtain ⟨rfl, -, h⟩ := h
      exact (hR e (by simp)).trans (ih h fun x hx => hR x (by simp [hx]))
  induction way generalizing s with
  | nil => simp
  | cons e way ih =>
    obtain ⟨rfl, -, h⟩ := h
    have hrest : ∀ x ∈ way, Relation.ReflTransGen R x.1 x.2.1 := fun x hx => hR x (by simp [hx])
    refine forall_mem_cons.2 ⟨⟨.refl, hwhole h hrest⟩, fun x hx => ?_⟩
    obtain ⟨hto, hfrom⟩ := ih h hrest x hx
    exact ⟨(hR e (by simp)).trans hto, hfrom⟩

/-! ### Cycles -/

/-- The edges lead around, and pass no node twice. -/
structure IsCycle (g : FlowGraph) (c : List (NodeId × NodeId × Nat)) : Prop where
  nonempty : c ≠ []
  nodup : (c.map (·.1)).Nodup
  closed : ∃ a, g.IsWay a c a

theorem IsCycle.mem_edges (h : g.IsCycle c) : ∀ e ∈ c, e ∈ g.edges := by
  obtain ⟨a, ha⟩ := h.closed
  exact ha.mem_edges

theorem IsCycle.targets_perm (h : g.IsCycle c) : c.map (·.2.1) ~ c.map (·.1) := by
  obtain ⟨a, ha⟩ := h.closed
  have hends : a :: c.map (·.2.1) ~ a :: c.map (·.1) := by
    rw [← ha.sources_append]
    exact perm_append_singleton a _
  exact hends.cons_inv

theorem IsCycle.target_mem (h : g.IsCycle c) (he : e ∈ c) : e.2.1 ∈ c.map (·.1) :=
  h.targets_perm.mem_iff.1 (mem_map.2 ⟨e, he, rfl⟩)

theorem IsCycle.leads {R : NodeId → NodeId → Prop}
    (h : g.IsCycle c) (hR : ∀ e ∈ c, Relation.ReflTransGen R e.1 e.2.1) (hs : s ∈ c.map (·.1))
    (ht : t ∈ c.map (·.1)) : Relation.ReflTransGen R s t := by
  obtain ⟨a, ha⟩ := h.closed
  obtain ⟨e, he, rfl⟩ := mem_map.1 hs
  obtain ⟨e', he', rfl⟩ := mem_map.1 ht
  have hback := (ha.leads hR e he).2
  have hforth := (ha.leads hR e' he').1
  exact ((hR e he).trans hback).trans hforth

theorem IsWay.isCycle_dropWhile (h : g.IsWay s way t) (hnodup : (way.map (·.1)).Nodup)
    (ht : t ∈ way.map (·.1)) : g.IsCycle (way.dropWhile fun w => w.1 != t) := by
  obtain ⟨x, hx, rfl⟩ := mem_map.1 ht
  have hsome : (way.dropWhile fun w => w.1 != x.1) ≠ [] := by
    rw [Ne, dropWhile_eq_nil_iff]
    intro hnone
    simpa using hnone x hx
  refine ⟨hsome, hnodup.sublist ((dropWhile_sublist _).map _), x.1, ?_⟩
  rw [← takeWhile_append_dropWhile (l := way), isWay_append] at h
  obtain ⟨m, -, hm⟩ := h
  -- the part starts with an edge out of the node
  have hstart : m = x.1 := by
    obtain ⟨e, rest, hrest⟩ := exists_cons_of_ne_nil hsome
    have hhead := head_dropWhile_not (fun w : NodeId × NodeId × Nat => w.1 != x.1) hsome
    simp only [hrest, bne_eq_false_iff_eq] at hhead
    rw [hrest] at hm
    exact hm.1.symm.trans hhead
  exact hstart ▸ hm

/-! ### The search -/

/-- What a search gives: a cycle, or visited nodes. -/
def Outcome (found : List (NodeId × NodeId × Nat) → Prop) (clear : List NodeId → Prop)
    (r : Option (List (NodeId × NodeId × Nat)) × List NodeId) : Prop :=
  match r.1 with
  | some c => found c
  | none => clear r.2

theorem Outcome.foldl {α : Type} {found : List (NodeId × NodeId × Nat) → Prop}
    {clear : List NodeId → Prop} {done : α → Prop}
    {step : Option (List (NodeId × NodeId × Nat)) × List NodeId → α →
      Option (List (NodeId × NodeId × Nat)) × List NodeId}
    (hfound : ∀ c visited x, step (some c, visited) x = (some c, visited)) {xs : List α}
    (hstep : ∀ x ∈ xs, ∀ visited, clear visited →
      Outcome found (fun visited' => clear visited' ∧ done x) (step (none, visited) x)) (hvisited : clear visited) :
    Outcome found (fun visited' => clear visited' ∧ ∀ x ∈ xs, done x) (xs.foldl step (none, visited)) := by
  have hstays : ∀ (xs : List α) c visited, xs.foldl step (some c, visited) = (some c, visited) := by
    intro xs c visited
    induction xs with
    | nil => rfl
    | cons x xs ih => rw [foldl_cons, hfound, ih]
  induction xs generalizing visited with
  | nil => exact ⟨hvisited, by simp⟩
  | cons x xs ih =>
    have hfirst := hstep x (by simp) visited hvisited
    rw [foldl_cons]
    rcases hr : step (none, visited) x with ⟨_ | c, visited'⟩
    · rw [hr] at hfirst
      have hrest := ih (fun y hy => hstep y (by simp [hy])) hfirst.1
      rcases hall : xs.foldl step (none, visited') with ⟨_ | c, visited''⟩
      · rw [hall] at hrest
        exact ⟨hrest.1, forall_mem_cons.2 ⟨hfirst.2, hrest.2⟩⟩
      · rw [hall] at hrest
        exact hrest
    · rw [hr] at hfirst
      rw [hstays]
      exact hfirst

def Ends (g : FlowGraph) (n : NodeId) : Prop := Acc (fun b a => g.Joins a b) n

variable (hclosed : g.Closed)
include hclosed

theorem cycleFromGo_turn {fuel : Nat}
    (he : e ∈ g.edges) (hway : g.IsWay s way e.1) (hnodup : (way.map (·.1) ++ [e.1]).Nodup)
    (hvisited : ∀ v ∈ visited, v ∈ way.map (·.1) ++ [e.1] ∨ g.Ends v)
    (hgo : (way.map (·.1) ++ [e.1] ++ [e.2.1]).Nodup → e.2.1 ∈ g.nodes →
      Outcome g.IsCycle (fun visited' => (∀ v ∈ visited', v ∈ way.map (·.1) ++ [e.1] ∨ g.Ends v) ∧ g.Ends e.2.1)
        (g.cycleFromGo fuel e.2.1 (way ++ [e]) visited)) :
    Outcome g.IsCycle (fun visited' => (∀ v ∈ visited', v ∈ way.map (·.1) ++ [e.1] ∨ g.Ends v) ∧ g.Ends e.2.1)
      (if e.2.1 == e.1 || way.any fun w => w.1 == e.2.1 then
        (some ((way ++ [e]).dropWhile fun w => w.1 != e.2.1), visited)
      else if visited.contains e.2.1 then (none, visited)
      else g.cycleFromGo fuel e.2.1 (way ++ [e]) visited) := by
  have hback : (e.2.1 == e.1 || way.any fun w => w.1 == e.2.1) ↔ e.2.1 ∈ way.map (·.1) ++ [e.1] := by
    rw [Bool.or_eq_true, any_eq_true, mem_append, mem_map, mem_singleton]
    simp only [beq_iff_eq]
    exact or_comm
  have hmap : (way ++ [e]).map (·.1) = way.map (·.1) ++ [e.1] := by rw [map_append, map_singleton]
  by_cases hclose : e.2.1 ∈ way.map (·.1) ++ [e.1]
  · rw [if_pos (hback.2 hclose)]
    exact (hway.snoc he).isCycle_dropWhile (hmap ▸ hnodup) (hmap ▸ hclose)
  · rw [if_neg (fun h => hclose (hback.1 h))]
    by_cases hseen : visited.contains e.2.1
    · rw [if_pos hseen]
      exact ⟨hvisited, (hvisited _ (elem_iff.1 hseen)).resolve_left hclose⟩
    · rw [if_neg hseen]
      refine hgo (nodup_append.2 ⟨hnodup, by simp, fun a ha b hb hab => hclose ?_⟩) (hclosed e he)
      rwa [← mem_singleton.1 hb, ← hab]

theorem cycleFromGo_outcome {fuel : Nat} {id : NodeId} (hway : g.IsWay s way id)
    (hnodup : (way.map (·.1) ++ [id]).Nodup) (hnodes : way.map (·.1) ++ [id] ⊆ g.nodes)
    (hfuel : g.nodes.length < fuel + way.length) (hvisited : ∀ v ∈ visited, v ∈ way.map (·.1) ∨ g.Ends v) :
    Outcome g.IsCycle (fun visited' => (∀ v ∈ visited', v ∈ way.map (·.1) ∨ g.Ends v) ∧ g.Ends id)
      (g.cycleFromGo fuel id way visited) := by
  induction fuel generalizing id way visited with
  | zero =>
    -- a way that passes no node twice has no more nodes than the graph
    have hlength := (hnodup.subperm hnodes).length_le
    rw [length_append, length_map] at hlength
    omega
  | succ fuel ih =>
    have hnew : ∀ v ∈ addNew visited id, v ∈ way.map (·.1) ++ [id] ∨ g.Ends v := by
      intro v hv
      rcases mem_addNew.1 hv with hv | rfl
      · exact (hvisited v hv).imp_left fun h => mem_append_left _ h
      · exact .inl (by simp)
    have hall : Outcome g.IsCycle
        (fun visited' => (∀ v ∈ visited', v ∈ way.map (·.1) ++ [id] ∨ g.Ends v) ∧ ∀ e ∈ g.outEdges id, g.Ends e.2.1)
        (g.cycleFromGo (fuel + 1) id way visited) := by
      refine Outcome.foldl (fun _ _ _ => rfl) (fun e he visited hvisited => ?_) hnew
      obtain ⟨hedge, rfl⟩ := mem_outEdges_iff.1 he
      refine cycleFromGo_turn hclosed hedge hway hnodup hvisited fun hnodup' htarget => ?_
      have hmap : (way ++ [e]).map (·.1) = way.map (·.1) ++ [e.1] := by rw [map_append, map_singleton]
      have hrec := ih (hway.snoc hedge) (hmap ▸ hnodup') (hmap ▸ ?_) ?_ (hmap ▸ hvisited)
      · rwa [hmap] at hrec
      · exact append_subset.2 ⟨hnodes, by simpa using htarget⟩
      · rw [length_append, length_singleton]
        omega
    -- all edges out of the node have been followed
    unfold Outcome at hall ⊢
    split at hall
    · exact hall
    · obtain ⟨hvisited', hedges⟩ := hall
      have hends : g.Ends id := by
        refine Acc.intro id ?_
        rintro t ⟨k, hk⟩
        exact hedges (id, t, k) (mem_outEdges_iff.2 ⟨hk, rfl⟩)
      refine ⟨fun v hv => ?_, hends⟩
      rcases hvisited' v hv with h | h
      · rcases mem_append.1 h with h | h
        · exact .inl h
        · exact .inr (mem_singleton.1 h ▸ hends)
      · exact .inr h

theorem cycle?_outcome :
    ∃ r, r.1 = g.cycle? ∧
      Outcome g.IsCycle (fun visited => (∀ v ∈ visited, g.Ends v) ∧ ∀ n ∈ g.nodes, g.Ends n) r := by
  refine ⟨_, rfl, Outcome.foldl (fun _ _ _ => rfl) (fun n hn visited hvisited => ?_) (by simp)⟩
  show Outcome _ _ (if _ then _ else _)
  by_cases hseen : visited.contains n
  · rw [if_pos hseen]
    exact ⟨hvisited, hvisited n (elem_iff.1 hseen)⟩
  · rw [if_neg hseen]
    have hgo := @cycleFromGo_outcome g n [] visited hclosed (g.nodes.length + 1) n rfl (by simp) (by simpa using hn)
      (by simp) fun v hv => .inr (hvisited v hv)
    simpa using hgo

theorem isCycle_of_cycle? (h : g.cycle? = some c) : g.IsCycle c := by
  obtain ⟨r, hr, hall⟩ := cycle?_outcome hclosed
  rw [Outcome, hr, h] at hall
  exact hall

theorem wellFounded_of_cycle? (h : g.cycle? = none) : WellFounded fun b a => g.Joins a b := by
  obtain ⟨r, hr, hall⟩ := cycle?_outcome hclosed
  rw [Outcome, hr, h] at hall
  refine ⟨fun n => Acc.intro n ?_⟩
  rintro t ⟨k, hk⟩
  exact hall.2 t (hclosed _ hk)

theorem acyclic_of_cycle? (h : g.cycle? = none) : g.Acyclic := by
  intro n hn
  have hirrefl := (wellFounded_of_cycle? hclosed h).transGen.irrefl
  exact hirrefl.irrefl n (Relation.transGen_swap.2 hn)

end ParallelPatterns.FlowGraph
