import Mathlib.Algebra.BigOperators.Ring.List
import Mathlib.Algebra.Group.Action.Defs
import ParallelPatterns.Proofs.CycleSearch
import ParallelPatterns.Proofs.SuccessorView

/-!
# Unrolling cycles

Each round of the unrolling takes a cycle of the flow graph and redirects the edges into the nodes
from which the cycle can be left. If there is a last round, the flow graph has no cycle then. There
need not be one.

* A trap, a set of nodes in which everything goes on and nothing leads out, stays a trap in every
round. So the unrolling of a function with a trap never ends. * Without a trap the unrolling ends if
every loop is plain, or is left on each way around from a node whose ways out are known. The flow
edges inside of loops are weighed by a power of the level of their targets; a redirected edge weighs
more than all the edges that take its place.
-/

namespace ParallelPatterns

open List FlowGraph

namespace Graph

variable {t : NodeId} {copies : Bool} {u : Unrolling} {K : NodeId → Prop} {level : NodeId → Nat} {f : Node}

/-! ## Leaving a cycle -/

variable {g : Graph}

def outside (g : Graph) (cycle : List (NodeId × NodeId × Nat)) (id : NodeId) : List NodeId :=
  ((g.outEdgesOf id [.successor]).map (·.target)).filter fun t => !(cycle.flatMap fun e => [e.1, e.2.1]).contains t

def exits (g : Graph) (cycle : List (NodeId × NodeId × Nat)) (stuck : List NodeId) (id : NodeId) : List NodeId :=
  if stuck.contains id then g.outside cycle id else (g.outside cycle id).flatMap fun s => g.waysOut id s

variable {id s : NodeId} {P : Unrolling → Prop}

theorem eq_of_mem_waysOut (ht : t ∈ g.waysOut id s) : t = s := by
  rcases mem_append.1 ht with ht | ht
  · split at ht
    · exact mem_singleton.1 ht
    · cases ht
  · split at ht
    · exact mem_singleton.1 ht
    · cases ht

theorem mem_outside_of_mem_exits {cycle : List (NodeId × NodeId × Nat)} {stuck : List NodeId}
    (ht : t ∈ g.exits cycle stuck id) : t ∈ g.outside cycle id := by
  unfold exits at ht
  by_cases hstuck : stuck.contains id
  · rwa [if_pos hstuck] at ht
  · rw [if_neg hstuck] at ht
    obtain ⟨s, hs, ht⟩ := mem_flatMap.1 ht
    rwa [eq_of_mem_waysOut ht]

section Cycle

variable {g : Graph} {flow : FlowGraph} {c : List (NodeId × NodeId × Nat)} (hc : flow.IsCycle c)
include hc

theorem mem_outside_iff : t ∈ g.outside c id ↔ g.Next id t ∧ t ∉ c.map (·.1) := by
  have hinside : t ∈ (c.flatMap fun e => [e.1, e.2.1]) ↔ t ∈ c.map (·.1) := by
    simp only [mem_flatMap, mem_cons, not_mem_nil, or_false]
    constructor
    · rintro ⟨e, he, rfl | rfl⟩
      · exact mem_map.2 ⟨e, he, rfl⟩
      · exact hc.target_mem he
    · intro ht
      obtain ⟨e, he, rfl⟩ := mem_map.1 ht
      exact ⟨e, he, .inl rfl⟩
  rw [outside, mem_filter, Bool.not_eq_true', ← Bool.not_eq_true, contains_iff_mem, hinside, Next]

theorem leaveCycle_eq {e : NodeId × NodeId × Nat} (he : e ∈ c) (u : Unrolling) :
    g.leaveCycle false c u e.2.1 =
      if g.exits c u.stuck e.2.1 = [] then { u with stuck := u.stuck ++ [e.2.1] }
      else { flow := u.flow.redirect e (g.exits c u.stuck e.2.1), stuck := [] } := by
  have hnodup : (c.map (·.2.1)).Nodup := hc.targets_perm.nodup_iff.2 hc.nodup
  have hclosing : (c.filter fun x => x.2.1 == e.2.1) = [e] := by
    have hsame : (c.filter fun x => x.2.1 == e.2.1) = c.filter fun x => x == e := by
      refine filter_congr fun x hx => ?_
      rw [Bool.eq_iff_iff, beq_iff_eq, beq_iff_eq]
      exact ⟨fun heq => inj_on_of_nodup_map hnodup hx he heq, fun heq => heq ▸ rfl⟩
    rw [hsame, filter_beq, count_eq_one_of_mem hnodup.of_map he]
    rfl
  show (if (g.exits c u.stuck e.2.1).isEmpty then _ else _) = _
  by_cases hexits : g.exits c u.stuck e.2.1 = []
  · rw [hexits]
    rfl
  · rw [if_neg hexits, if_neg (by simpa using hexits)]
    rw [hclosing]
    rfl

theorem leaveNodes_induct {P : List NodeId → Unrolling → Prop}
    (hstuck : ∀ e ∈ c, ∀ ns u, P (e.2.1 :: ns) u → g.exits c u.stuck e.2.1 = [] →
      P ns { u with stuck := u.stuck ++ [e.2.1] })
    (hleft : ∀ e ∈ c, ∀ ns u, e.2.1 ∉ ns → P (e.2.1 :: ns) u → g.exits c u.stuck e.2.1 ≠ [] →
      P ns { flow := u.flow.redirect e (g.exits c u.stuck e.2.1), stuck := [] })
    (hu : ∀ ns, (∀ e ∈ c, e.2.1 ∈ ns) → P ns u) : P [] (g.leaveNodes false c u) := by
  have hnodes : ∀ n ∈ distinct (c.map (·.1) ++ c.map (·.2.1)), ∃ e ∈ c, e.2.1 = n := by
    intro n hn
    have hn : n ∈ c.map (·.2.1) := by
      rcases mem_append.1 (mem_distinct.1 hn) with hn | hn
      · exact hc.targets_perm.mem_iff.2 hn
      · exact hn
    exact mem_map.1 hn
  have hall : P (distinct (c.map (·.1) ++ c.map (·.2.1))) u := by
    refine hu _ fun e he => mem_distinct.2 (mem_append_right _ (mem_map.2 ⟨e, he, rfl⟩))
  unfold leaveNodes
  clear hu
  have hnodup := nodup_distinct (c.map (·.1) ++ c.map (·.2.1))
  generalize distinct (c.map (·.1) ++ c.map (·.2.1)) = ns at hnodes hall hnodup ⊢
  induction ns generalizing u with
  | nil => exact hall
  | cons n ns ih =>
    obtain ⟨e, he, rfl⟩ := hnodes n (by simp)
    obtain ⟨hn, hrest⟩ := nodup_cons.1 hnodup
    refine ih (fun m hm => hnodes m (by simp [hm])) ?_ hrest
    rw [leaveCycle_eq hc he]
    by_cases hexits : g.exits c u.stuck e.2.1 = []
    · rw [if_pos hexits]
      exact hstuck e he ns u hall hexits
    · rw [if_neg hexits]
      exact hleft e he ns u hn hall hexits

end Cycle

/-! ## Rounds -/

variable {ids : List NodeId} {flow : FlowGraph} {c : List (NodeId × NodeId × Nat)}

theorem unrollGo_of_cycle
    (hc : u.flow.cycle? = some c) : g.unrollGo copies u = g.unrollGo copies (g.leaveNodes copies c u) := by
  rw [unrollGo, hc]

theorem unrollGo_keeps (hround : ∀ u c, P u → u.flow.cycle? = some c → P (g.leaveNodes copies c u)) (hu : P u)
    (h : g.unrollGo copies u = some flow) : ∃ v, P v ∧ v.flow = flow ∧ flow.cycle? = none := by
  refine unrollGo.partial_correctness g copies (fun u flow => P u → ∃ v, P v ∧ v.flow = flow ∧ flow.cycle? = none)
    (fun go ih u flow hgo hu => ?_) u flow h hu
  cases hc : u.flow.cycle? with
  | none =>
    simp only [hc, Option.some.injEq] at hgo
    exact ⟨u, hu, hgo, hgo ▸ hc⟩
  | some c =>
    simp only [hc] at hgo
    exact ih _ _ hgo (hround u c hu hc)

theorem unrolled_keeps (hround : ∀ u c, P u → u.flow.cycle? = some c → P (g.leaveNodes copies c u))
    (hstart : P { flow := g.flowGraph (g.flowNodes f), stuck := [] }) (hf : g.unrolled copies f = .ok flow) :
    ∃ v, P v ∧ v.flow = flow ∧ flow.cycle? = none := by
  unfold unrolled at hf
  split at hf
  · rename_i flow' hgo
    cases hf
    exact unrollGo_keeps hround hstart hgo
  · cases hf

/-! ## Traps and loops that unwind -/

/-- Every node goes on, and none leads out. -/
structure IsTrap (next : NodeId → NodeId → Prop) (K : NodeId → Prop) : Prop where
  goesOn : ∀ n, K n → ∃ t, next n t
  stays : ∀ n t, K n → next n t → K t

/-- Some of the nodes are a trap of successors. -/
def HasTrap (g : Graph) (ids : List NodeId) : Prop :=
  ∃ K : NodeId → Prop, (∃ n, K n) ∧ (∀ n, K n → n ∈ ids) ∧ IsTrap g.Next K

/-- On the ways around through the node, every node has one successor that leads back. -/
def Unbranched (g : Graph) (n : NodeId) : Prop :=
  ∀ m, g.Follows n m → g.Follows m n → ∀ t t', g.Next m t → g.Next m t' → g.Follows t m → g.Follows t' m → t = t'

/-- The node has ways out, and none of them leads back. -/
structure WellLeft (g : Graph) (n : NodeId) : Prop where
  left : ∃ t, g.Next n t ∧ g.waysOut n t ≠ []
  apart : ∀ t, g.Next n t → g.waysOut n t ≠ [] → ¬g.Follows t n

theorem wellLeft_of_branch {g : Graph} {n t last : NodeId}
    (hn : (g.outEdgesOf n [.successor]).map (·.target) = [t, last])
    (ht : g.waysOut n t = []) (hways : g.waysOut n last = [last])
    (hlast : (g.outEdgesOf last [.successor]).map (·.target) = []) (hne : last ≠ n) : g.WellLeft n := by
  refine ⟨⟨last, by simp [Next, hn], by simp [hways]⟩, fun s hs hleft hback => ?_⟩
  have hs : s = t ∨ s = last := by simpa [Next, hn] using hs
  rcases hs with rfl | rfl
  · exact hleft ht
  · rcases Relation.ReflTransGen.cases_head hback with heq | ⟨m, hm, -⟩
    · exact hne heq
    · simp [hlast] at hm

/-- Every loop is without branches, or is well left on each way around: apart from the nodes from
which it is well left, the levels go down along the loop. -/
def Unwinds (g : Graph) (ids : List NodeId) (level : NodeId → Nat) : Prop :=
  ∀ n ∈ ids, g.Unbranched n ∨ g.WellLeft n ∨ ∀ t, g.Next n t → g.Follows t n → level t < level n

/-- The edge of a flow graph stands for a way over successors; in a loop without branches it is a
successor edge. -/
structure Stands (g : Graph) (ids : List NodeId) (e : NodeId × NodeId × Nat) : Prop where
  source : e.1 ∈ ids
  next : ∃ t, g.Next e.1 t
  follows : g.Follows e.1 e.2.1
  plain : g.Unbranched e.1 → g.Follows e.2.1 e.1 → g.Next e.1 e.2.1

structure Unwinding (g : Graph) (ids : List NodeId) (u : Unrolling) : Prop where
  closed : u.flow.Closed
  stands : ∀ e ∈ u.flow.edges, g.Stands ids e
  stuck : ∀ n ∈ u.stuck, ¬g.WellLeft n

section Cycle

variable {n : NodeId} {e : NodeId × NodeId × Nat} {g : Graph} {ids stuck : List NodeId} {flow : FlowGraph}
  {c : List (NodeId × NodeId × Nat)}

theorem WellLeft.not_follows (h : g.WellLeft n) (hstuck : n ∉ stuck) (ht : t ∈ g.exits c stuck n)
    (hnext : g.Next n t) : ¬g.Follows t n := by
  rw [exits, if_neg (by simpa using hstuck)] at ht
  obtain ⟨s, hs, ht⟩ := mem_flatMap.1 ht
  obtain rfl := eq_of_mem_waysOut ht
  exact h.apart t hnext (ne_nil_of_mem ht)

variable (hc : flow.IsCycle c) (hstands : ∀ e ∈ c, g.Stands ids e)
include hc hstands

theorem follows_of_isCycle (hs : s ∈ c.map (·.1)) (ht : t ∈ c.map (·.1)) : g.Follows s t :=
  hc.leads (fun e he => (hstands e he).follows) hs ht

theorem follows_back (he : e ∈ c) : g.Follows e.2.1 e.1 :=
  follows_of_isCycle hc hstands (hc.target_mem he) (mem_map.2 ⟨e, he, rfl⟩)

theorem Unbranched.not_follows (h : g.Unbranched n) (hn : n ∈ c.map (·.1))
    (ht : t ∈ g.outside c n) : ¬g.Follows t n := by
  intro hback
  obtain ⟨hnext, hout⟩ := (mem_outside_iff hc).1 ht
  obtain ⟨e, he, rfl⟩ := mem_map.1 hn
  have haround := follows_back hc hstands he
  -- the cycle goes on with the one successor that leads back
  have heq : t = e.2.1 := h e.1 .refl .refl t e.2.1 hnext ((hstands e he).plain h haround) hback haround
  exact hout (heq ▸ hc.target_mem he)

theorem WellLeft.exits_ne_nil (h : g.WellLeft n) (hn : n ∈ c.map (·.1)) (hstuck : n ∉ stuck) :
    g.exits c stuck n ≠ [] := by
  obtain ⟨t, hnext, hways⟩ := h.left
  have hout : t ∉ c.map (·.1) := fun ht => h.apart t hnext hways (follows_of_isCycle hc hstands ht hn)
  rw [exits, if_neg (by simpa using hstuck), Ne, flatMap_eq_nil_iff]
  exact fun hnil => hways (hnil t ((mem_outside_iff hc).2 ⟨hnext, hout⟩))

theorem Unwinds.level_lt (h : g.Unwinds ids level) (hstuck : ∀ n ∈ stuck, ¬g.WellLeft n) (hn : n ∈ c.map (·.1))
    (ht : t ∈ g.exits c stuck n) (hback : g.Follows t n) : level t < level n := by
  have hids : n ∈ ids := by
    obtain ⟨e, he, rfl⟩ := mem_map.1 hn
    exact (hstands e he).source
  have hout := mem_outside_of_mem_exits ht
  have hnext := ((mem_outside_iff hc).1 hout).1
  rcases h n hids with hplain | hleft | hlevel
  · exact absurd hback (hplain.not_follows hc hstands hn hout)
  · exact absurd hback (hleft.not_follows (fun hmem => hstuck n hmem hleft) ht hnext)
  · exact hlevel t hnext hback

theorem Stands.redirect {x : NodeId × NodeId × Nat} (he : e ∈ c) (hsource : x.1 = e.1)
    (ht : x.2.1 ∈ g.exits c stuck e.2.1) : g.Stands ids x := by
  have h := hstands e he
  have hnext := ((mem_outside_iff hc).1 (mem_outside_of_mem_exits ht)).1
  refine ⟨hsource ▸ h.source, hsource ▸ h.next, ?_, fun hplain hback => ?_⟩
  · rw [hsource]
    exact h.follows.tail hnext
  · rw [hsource] at hplain hback
    have hown : g.Unbranched _ := fun k hmk hkm => hplain k (h.follows.trans hmk)
      (hkm.trans (follows_back hc hstands he))
    have hout := hown.not_follows hc hstands (hc.target_mem he) (mem_outside_of_mem_exits ht)
    exact absurd (hback.trans h.follows) hout

theorem Unwinding.noteStuck {v : Unrolling} (hv : g.Unwinding ids v) (he : e ∈ c)
    (hexits : g.exits c v.stuck e.2.1 = []) : g.Unwinding ids { v with stuck := v.stuck ++ [e.2.1] } := by
  refine ⟨hv.closed, hv.stands, fun n hn => ?_⟩
  rcases mem_append.1 hn with hn | hn
  · exact hv.stuck n hn
  · rw [mem_singleton.1 hn]
    intro hwell
    have hfree : e.2.1 ∉ v.stuck := fun hmem => hv.stuck _ hmem hwell
    exact hwell.exits_ne_nil hc hstands (hc.target_mem he) hfree hexits

theorem Unwinding.redirect {v : Unrolling} (hv : g.Unwinding ids v) (he : e ∈ c) :
    g.Unwinding ids { flow := v.flow.redirect e (g.exits c v.stuck e.2.1), stuck := [] } := by
  refine ⟨hv.closed.redirect e _, fun x hx => ?_, by simp⟩
  rcases mem_edges_redirect hx with hx | ⟨hsource, hx⟩
  · exact hv.stands x hx
  · exact Stands.redirect hc hstands he hsource hx

end Cycle

theorem Unwinding.isCycle (hu : g.Unwinding ids u) (hc : u.flow.cycle? = some c) : u.flow.IsCycle c :=
  isCycle_of_cycle? hu.closed hc

theorem Unwinding.stands_of_mem (hu : g.Unwinding ids u) (hc : u.flow.IsCycle c) : ∀ e ∈ c, g.Stands ids e :=
  fun e he => hu.stands e (hc.mem_edges e he)

theorem Unwinding.leaveNodes (hu : g.Unwinding ids u)
    (hc : u.flow.IsCycle c) : g.Unwinding ids (g.leaveNodes false c u) := by
  have hstands := hu.stands_of_mem hc
  exact leaveNodes_induct hc
    (fun e he _ v hv hexits => hv.noteStuck hc hstands he hexits)
    (fun e he _ v _ hv _ => hv.redirect hc hstands he) (fun _ _ => hu)

/-! ## Unrolling a trap -/

theorem IsTrap.redirect (h : IsTrap flow.Joins K) (hg : IsTrap g.Next K)
    {e : NodeId × NodeId × Nat} (he : K e.1 → K e.2.1) {targets : List NodeId}
    (htargets : ∀ t ∈ targets, g.Next e.2.1 t)
    (hne : targets ≠ []) : IsTrap (flow.redirect e targets).Joins K := by
  constructor
  · intro n hn
    obtain ⟨t, k, hk⟩ := h.goesOn n hn
    by_cases heq : (n, t, k) = e
    · obtain ⟨t', ht'⟩ := exists_mem_of_ne_nil _ hne
      exact ⟨t', heq ▸ joins_redirect flow e ht'⟩
    · exact ⟨t, k, mem_edges_redirect_of_ne targets hk heq⟩
  · rintro n t hn ⟨k, hk⟩
    rcases mem_edges_redirect hk with hk | ⟨rfl, ht⟩
    · exact h.stays n t hn ⟨k, hk⟩
    · exact hg.stays _ _ (he hn) (htargets t ht)

theorem IsTrap.leaveNodes (h : IsTrap u.flow.Joins K) (hg : IsTrap g.Next K)
    (hc : u.flow.IsCycle c) : IsTrap (g.leaveNodes false c u).flow.Joins K := by
  refine leaveNodes_induct hc (P := fun _ v => IsTrap v.flow.Joins K) (fun e _ _ v hv _ => hv)
    (fun e he _ v _ hv hexits => ?_) (fun _ _ => h)
  refine hv.redirect hg (fun hK => h.stays _ _ hK ⟨e.2.2, hc.mem_edges e he⟩) (fun t ht => ?_) hexits
  exact ((mem_outside_iff hc).1 (mem_outside_of_mem_exits ht)).1

theorem Unwinding.unrollGo_eq_none (hu : g.Unwinding ids u)
    (h : IsTrap u.flow.Joins K) (hg : IsTrap g.Next K) (hK : ∃ n, K n) : g.unrollGo false u = none := by
  cases hgo : g.unrollGo false u with
  | none => rfl
  | some flow =>
    obtain ⟨v, ⟨hv, htrap⟩, rfl, hnone⟩ := unrollGo_keeps
      (P := fun v => g.Unwinding ids v ∧ IsTrap v.flow.Joins K)
      (fun v c hv hc => ⟨hv.1.leaveNodes (hv.1.isCycle hc), hv.2.leaveNodes hg (hv.1.isCycle hc)⟩) ⟨hu, h⟩ hgo
    -- the last node of a way in the trap would have to go on
    obtain ⟨n, hn, hlast⟩ := (wellFounded_of_cycle? hv.closed hnone).has_min {n | K n} hK
    obtain ⟨t, ht⟩ := htrap.goesOn n hn
    exact absurd ht (hlast t (htrap.stays n t hn ht))

/-! ## Unrolling loops that unwind -/

open Classical in
/-- The weight of a flow edge: an edge that leads around weighs the more, the higher its target
is. -/
noncomputable def weight (g : Graph) (level : NodeId → Nat) (s t : NodeId) : Nat :=
  if g.Follows t s then (2 * g.linkedEdges.length + 1) ^ level t else 0

theorem length_exits_le (g : Graph) (c : List (NodeId × NodeId × Nat)) (stuck : List NodeId)
    (n : NodeId) : (g.exits c stuck n).length ≤ 2 * g.linkedEdges.length := by
  have hout : (g.outside c n).length ≤ g.linkedEdges.length := by
    have hedges : ((g.outEdgesOf n [.successor]).map (·.target)).length ≤ g.linkedEdges.length := by
      rw [length_map]
      exact (filter_sublist.trans (filter_sublist.flatMap Link.toEdges)).length_le
    exact (length_filter_le _ _).trans hedges
  have hways : ∀ s, (g.waysOut n s).length ≤ 2 := by
    intro s
    unfold waysOut
    rw [length_append]
    split <;> split <;> simp
  unfold exits
  by_cases hstuck : stuck.contains n
  · rw [if_pos hstuck]
    omega
  · rw [if_neg hstuck, length_flatMap]
    have hsum := sum_le_card_nsmul ((g.outside c n).map fun s => (g.waysOut n s).length) 2
      (by simpa using fun s _ => hways s)
    rw [length_map, smul_eq_mul] at hsum
    omega

theorem Unwinds.sum_weight_lt (h : g.Unwinds ids level) {stuck : List NodeId} (hc : flow.IsCycle c)
    (hstands : ∀ e ∈ c, g.Stands ids e) (hstuck : ∀ n ∈ stuck, ¬g.WellLeft n)
    {e : NodeId × NodeId × Nat} (he : e ∈ c) :
    ((g.exits c stuck e.2.1).map (g.weight level e.1)).sum < g.weight level e.1 e.2.1 := by
  have hlength := g.length_exits_le c stuck e.2.1
  rw [weight, if_pos (follows_back hc hstands he)]
  have hpos : 0 < (2 * g.linkedEdges.length + 1) ^ level e.2.1 := Nat.pow_pos (by omega)
  have hone : ∀ x ∈ (g.exits c stuck e.2.1).map (fun t => (2 * g.linkedEdges.length + 1) * g.weight level e.1 t),
      x ≤ (2 * g.linkedEdges.length + 1) ^ level e.2.1 := by
    intro x hx
    obtain ⟨t, ht, rfl⟩ := mem_map.1 hx
    by_cases hback : g.Follows t e.1
    · have hlevel := h.level_lt hc hstands hstuck (hc.target_mem he) ht (hback.trans (hstands e he).follows)
      rw [weight, if_pos hback, ← Nat.pow_succ']
      exact Nat.pow_le_pow_right (by omega) hlevel
    · rw [weight, if_neg hback]
      omega
  have hsum := sum_le_card_nsmul _ _ hone
  rw [sum_map_mul_left, length_map] at hsum
  by_contra hlarge
  have hmul := Nat.mul_le_mul_left (2 * g.linkedEdges.length + 1) (Nat.le_of_not_lt hlarge)
  have hlt := Nat.mul_lt_mul_of_pos_right (Nat.lt_succ_of_le hlength) hpos
  exact Nat.lt_irrefl _ (hlt.trans_le (hmul.trans hsum))

theorem Unwinding.round (h : g.Unwinds ids level) (hu : g.Unwinding ids u) (hc : u.flow.IsCycle c) :
    g.Unwinding ids (g.leaveNodes false c u) ∧
      ((g.leaveNodes false c u).flow.load (g.weight level) < u.flow.load (g.weight level) ∨
        (g.leaveNodes false c u).flow = u.flow ∧
          ∀ e ∈ c, e.2.1 ∈ (g.leaveNodes false c u).stuck ∧ (e.2.1 ∈ u.stuck → g.outside c e.2.1 = [])) := by
  have hstands := hu.stands_of_mem hc
  have hround := leaveNodes_induct (g := g) (u := u) hc
    (P := fun ns v => g.Unwinding ids v ∧ (∀ e ∈ c, e.2.1 ∈ ns → e ∈ v.flow.edges) ∧
      (v.flow.load (g.weight level) < u.flow.load (g.weight level) ∨
        v.flow = u.flow ∧ (∀ n ∈ u.stuck, n ∈ v.stuck) ∧
          ∀ e ∈ c, e.2.1 ∉ ns → e.2.1 ∈ v.stuck ∧ (e.2.1 ∈ u.stuck → g.outside c e.2.1 = []))) ?_ ?_ ?_
  · obtain ⟨hunwinding, -, hlighter | ⟨hflow, -, hstuck⟩⟩ := hround
    · exact ⟨hunwinding, .inl hlighter⟩
    · exact ⟨hunwinding, .inr ⟨hflow, fun e he => hstuck e he (by simp)⟩⟩
  · -- the node gets stuck
    rintro e he ns v ⟨hv, hedges, hload⟩ hexits
    refine ⟨hv.noteStuck hc hstands he hexits, fun x hx hns => hedges x hx (by simp [hns]), hload.imp_right ?_⟩
    rintro ⟨hflow, hkept, hstuck⟩
    refine ⟨hflow, fun n hn => mem_append_left _ (hkept n hn), fun x hx hns => ?_⟩
    by_cases heq : x.2.1 = e.2.1
    · rw [heq]
      refine ⟨by simp, fun hmem => ?_⟩
      rwa [exits, if_pos (elem_iff.2 (hkept _ hmem))] at hexits
    · obtain ⟨hin, hout⟩ := hstuck x hx (by simp [heq, hns])
      exact ⟨mem_append_left _ hin, hout⟩
  · -- the edge into the node is redirected
    rintro e he ns v hns ⟨hv, hedges, hload⟩ -
    refine ⟨hv.redirect hc hstands he, ?_, ?_⟩
    · intro x hx hxns
      refine mem_edges_redirect_of_ne _ (hedges x hx (by simp [hxns])) ?_
      rintro rfl
      exact hns hxns
    · have hmove := load_redirect_le (g.weight level) (hedges e he (by simp)) (g.exits c v.stuck e.2.1)
      have hlight := h.sum_weight_lt hc hstands hv.stuck he
      have hbefore : v.flow.load (g.weight level) ≤ u.flow.load (g.weight level) := by
        rcases hload with hlighter | ⟨hflow, -⟩
        · exact hlighter.le
        · rw [hflow]
      exact .inl (by show (v.flow.redirect e _).load _ < _; omega)
  · -- before the first node nothing has changed
    intro ns hns
    exact ⟨hu, fun e he _ => hc.mem_edges e he, .inr ⟨rfl, fun _ hn => hn, fun e he hout => absurd (hns e he) hout⟩⟩

theorem Unwinding.hasTrap (hu : g.Unwinding ids u) (hc : u.flow.IsCycle c)
    (hout : ∀ e ∈ c, g.outside c e.2.1 = []) : g.HasTrap ids := by
  have hstands : ∀ n ∈ c.map (·.1), n ∈ ids ∧ ∃ t, g.Next n t := by
    intro n hn
    obtain ⟨e, he, rfl⟩ := mem_map.1 hn
    have h := hu.stands_of_mem hc e he
    exact ⟨h.source, h.next⟩
  refine ⟨fun n => n ∈ c.map (·.1), ?_, fun n hn => (hstands n hn).1, fun n hn => (hstands n hn).2, ?_⟩
  · obtain ⟨e, he⟩ := exists_mem_of_ne_nil c hc.nonempty
    exact ⟨e.1, mem_map.2 ⟨e, he, rfl⟩⟩
  · intro n t hn hnext
    obtain ⟨e, he, rfl⟩ := mem_map.1 (hc.targets_perm.mem_iff.2 hn)
    by_contra ht
    have hmem := (mem_outside_iff hc).2 ⟨hnext, ht⟩
    rw [hout e he] at hmem
    cases hmem

/-- Without a trap there is a last round if loops unwind: a round that changes nothing is followed
by one that makes the flow graph lighter. -/
theorem Unwinding.exists_unrollGo (h : g.Unwinds ids level)
    (htrap : ¬g.HasTrap ids) (hu : g.Unwinding ids u) : ∃ flow, g.unrollGo false u = some flow := by
  induction hload : u.flow.load (g.weight level) using Nat.strong_induction_on generalizing u with
  | _ m ih =>
    cases hcycle : u.flow.cycle? with
    | none => exact ⟨u.flow, by rw [unrollGo, hcycle]⟩
    | some c =>
      have hc := hu.isCycle hcycle
      rw [unrollGo_of_cycle hcycle]
      obtain ⟨hu₁, hlighter | ⟨hsame, hstuck⟩⟩ := hu.round h hc
      · exact ih _ (hload ▸ hlighter) hu₁ rfl
      · -- the same cycle is found again, with all its nodes stuck
        rw [← hsame] at hcycle hc
        rw [unrollGo_of_cycle hcycle]
        obtain ⟨hu₂, hlighter | ⟨-, hstuck₂⟩⟩ := hu₁.round h hc
        · rw [hsame, hload] at hlighter
          exact ih _ hlighter hu₂ rfl
        · exact absurd (hu₁.hasTrap hc fun e he => (hstuck₂ e he).2 (hstuck e he).1) htrap

/-! ## Functions -/

theorem joins_flowGraph_iff (h : g.Ordered) :
    (g.flowGraph ids).Joins s t ↔ s ∈ ids ∧ t ∈ ids ∧ g.Next s t := by
  unfold FlowGraph.Joins Next
  rw [edges_flowGraph h.linked h.successorsFirst, mem_successorIds_iff]
  simp only [mem_map, mem_filter, Bool.and_eq_true, contains_iff_mem, beq_iff_eq, Prod.mk.injEq]
  constructor
  · rintro ⟨k, e, ⟨⟨he, hs, ht⟩, hsucc⟩, rfl, rfl, rfl⟩
    exact ⟨hs, ht, e, he, hsucc, rfl, rfl⟩
  · rintro ⟨hs, ht, e, he, hsucc, rfl, rfl⟩
    exact ⟨e.key, e, ⟨⟨he, hs, ht⟩, hsucc⟩, rfl, rfl, rfl⟩

theorem Ordered.unwinding (h : g.Ordered) (ids : List NodeId) :
    g.Unwinding ids { flow := g.flowGraph ids, stuck := [] } := by
  refine ⟨?_, ?_, by simp⟩
  · intro e he
    obtain ⟨-, ht, hnext⟩ := (joins_flowGraph_iff h).1 ⟨e.2.2, he⟩
    have hknown := h.wellFormed.targets_subset [.successor] e.1 hnext
    show e.2.1 ∈ ((g.restrictTo ids).successorView).nodes.keys
    rw [nodes_successorView]
    obtain ⟨x, hx, hkey⟩ := mem_map.1 hknown
    refine mem_map.2 ⟨x, mem_filter.2 ⟨hx, ?_⟩, hkey⟩
    rw [hkey]
    exact elem_iff.2 ht
  · intro e he
    obtain ⟨hs, -, hnext⟩ := (joins_flowGraph_iff h).1 ⟨e.2.2, he⟩
    exact ⟨hs, ⟨e.2.1, hnext⟩, .single hnext, fun _ _ => hnext⟩

theorem Ordered.unrolled_of_trap (h : g.Ordered) (hf : g.HasTrap (g.flowNodes f)) :
    g.unrolled false f = .error .endless := by
  obtain ⟨K, hK, hids, htrap⟩ := hf
  have hflow : IsTrap (g.flowGraph (g.flowNodes f)).Joins K := by
    constructor
    · intro n hn
      obtain ⟨t, ht⟩ := htrap.goesOn n hn
      exact ⟨t, (joins_flowGraph_iff h).2 ⟨hids n hn, hids t (htrap.stays n t hn ht), ht⟩⟩
    · intro n t hn ht
      exact htrap.stays n t hn ((joins_flowGraph_iff h).1 ht).2.2
  rw [unrolled, (h.unwinding _).unrollGo_eq_none hflow htrap hK]

theorem unrolledFunctions_eq_ok {t : Table NodeId FlowGraph}
    (ht : g.unrolledFunctions copies = .ok t) : t.keys = g.functions.map (·.id) ∧
      (∀ e ∈ t.entries, ∃ f ∈ g.functions, f.id = e.1 ∧ g.unrolled copies f = .ok e.2) ∧
      ∀ f ∈ g.functions, ∃ flow, g.unrolled copies f = .ok flow := by
  obtain ⟨entries, hentries, ht⟩ := bind_eq_ok_iff.1 ht
  cases ht
  refine ⟨map_eq_of_mapM_eq_ok hentries fun f e he => ?_, fun e he => ?_, fun f hf => ?_⟩
  · obtain ⟨flow, -, he⟩ := bind_eq_ok_iff.1 he
    cases he
    rfl
  · obtain ⟨f, hf, he⟩ := (mem_of_mapM_eq_ok hentries e).1 he
    obtain ⟨flow, hflow, he⟩ := bind_eq_ok_iff.1 he
    cases he
    exact ⟨f, hf, rfl, hflow⟩
  · obtain ⟨e, he⟩ := exists_of_mapM_eq_ok hentries hf
    obtain ⟨flow, hflow, -⟩ := bind_eq_ok_iff.1 he
    exact ⟨flow, hflow⟩

theorem unrolledFunctions_cases (g : Graph) (copies : Bool) :
    (∃ t, g.unrolledFunctions copies = .ok t) ∨
      g.unrolledFunctions copies = .error .endless ∧ ∃ f ∈ g.functions, g.unrolled copies f = .error .endless := by
  unfold unrolledFunctions
  cases hall : g.functions.mapM fun f => (do return (f.id, ← g.unrolled copies f) :
    Result (NodeId × FlowGraph)) with
  | ok entries => exact .inl ⟨⟨entries⟩, rfl⟩
  | error e =>
    obtain ⟨f, hf, herror⟩ := exists_of_mapM_eq_error hall
    refine .inr ?_
    cases hgo : g.unrollGo copies { flow := g.flowGraph (g.flowNodes f), stuck := [] } with
    | some flow =>
      rw [unrolled, hgo] at herror
      cases herror
    | none =>
      have hendless : g.unrolled copies f = .error .endless := by rw [unrolled, hgo]
      rw [hendless] at herror
      cases herror
      exact ⟨rfl, f, hf, hendless⟩

theorem Ordered.unrolledFunctions_of_trap (h : g.Ordered) (hf : f ∈ g.functions)
    (htrap : g.HasTrap (g.flowNodes f)) : g.unrolledFunctions false = .error .endless := by
  rcases g.unrolledFunctions_cases false with ⟨t, ht⟩ | ⟨hendless, -⟩
  · obtain ⟨flow, hflow⟩ := (unrolledFunctions_eq_ok ht).2.2 f hf
    rw [h.unrolled_of_trap htrap] at hflow
    cases hflow
  · exact hendless

theorem Ordered.unrolledFunctions_of_unwinds (h : g.Ordered)
    (hall : ∀ f ∈ g.functions, ¬g.HasTrap (g.flowNodes f) ∧ ∃ level, g.Unwinds (g.flowNodes f) level) :
    ∃ t, g.unrolledFunctions false = .ok t := by
  rcases g.unrolledFunctions_cases false with hok | ⟨-, f, hf, hendless⟩
  · exact hok
  · obtain ⟨htrap, level, hlevel⟩ := hall f hf
    obtain ⟨flow, hgo⟩ := (h.unwinding (g.flowNodes f)).exists_unrollGo hlevel htrap
    rw [unrolled, hgo] at hendless
    cases hendless

end Graph

open ParallelPatterns.Graph in
/-- The functions of a program are unrolled to graphs without cycles, whose edges stand for ways
over successors, or the unrolling never ends. It never ends if the nodes of some function have a
trap; it ends if no function has a trap and the loops of every function unwind. -/
theorem ProgramInput.unrolledFunctions_outcome {earlier : UnitFile} {nodes : List Markup} {p : ProgramInput}
    {g g₁ g₂ : Graph} (hread : UnitFile.ofNodes earlier nodes = .ok p.units) (hg : p.toGraph = .ok g)
    (hmapped : g₁ = g ∨ g₁ = g.mapStaticRegions) (hmeta : g₁.computeMetadata = .ok g₂) :
    ((∃ t, g₂.unrolledFunctions false = .ok t ∧ t.keys = g₂.functions.map (·.id) ∧
        ∀ e ∈ t.entries, e.2.Acyclic ∧ ∀ a b, e.2.Joins a b → g₂.Follows a b) ∨
      g₂.unrolledFunctions false = .error .endless) ∧
    ((∃ f ∈ g₂.functions, g₂.HasTrap (g₂.flowNodes f)) → g₂.unrolledFunctions false = .error .endless) ∧
    ((∀ f ∈ g₂.functions, ¬g₂.HasTrap (g₂.flowNodes f) ∧ ∃ level, g₂.Unwinds (g₂.flowNodes f) level) →
      ∃ t, g₂.unrolledFunctions false = .ok t) := by
  have h : g₂.Ordered := (ordered_of_ofNodes hread hg hmapped).computeMetadata hmeta
  refine ⟨?_, ?_, h.unrolledFunctions_of_unwinds⟩
  · rcases g₂.unrolledFunctions_cases false with ⟨t, ht⟩ | ⟨hendless, -⟩
    · obtain ⟨hkeys, hentries, -⟩ := unrolledFunctions_eq_ok ht
      refine .inl ⟨t, ht, hkeys, fun e he => ?_⟩
      obtain ⟨f, -, -, hf⟩ := hentries e he
      obtain ⟨v, hv, heq, hnone⟩ := unrolled_keeps (P := g₂.Unwinding (g₂.flowNodes f))
        (fun u c hu hc => hu.leaveNodes (hu.isCycle hc)) (h.unwinding (g₂.flowNodes f)) hf
      rw [← heq] at hnone ⊢
      refine ⟨FlowGraph.acyclic_of_cycle? hv.closed hnone, ?_⟩
      rintro s t ⟨k, hk⟩
      exact (hv.stands _ hk).follows
    · exact .inr hendless
  · rintro ⟨f, hf, htrap⟩
    exact h.unrolledFunctions_of_trap hf htrap

/-- A function with a loop from `1:2`, which is left to `1:6`. The loop has a branch: `1:3` leads
back over `1:4` and over `1:5`. -/
def branchingLoop : List Markup :=
  [nodeOf "1:0" "1" "1:1,1:6" [] [], nodeOf "1:1" "2" "1:2,1:3,1:4,1:5" [] [],
    nodeOf "1:2" "2" "" ["1:3", "1:6"] [], nodeOf "1:3" "2" "" ["1:4", "1:5"] [],
    nodeOf "1:4" "2" "" ["1:2"] [], nodeOf "1:5" "2" "" ["1:2"] [], nodeOf "1:6" "2" "" [] []]

open ParallelPatterns.Graph in
/-- The loop is well left from `1:2`, and the levels go down on its way around from there: it is
unrolled to a graph without cycles. -/
theorem ProgramInput.unrolledFunctions_outcome_branchingLoop :
    ∃ u g g₂, UnitFile.ofNodes {} branchingLoop = .ok u ∧ toGraph ⟨u, [], ∅, none⟩ = .ok g ∧
      g.computeMetadata = .ok g₂ ∧
      ∃ t, g₂.unrolledFunctions false = .ok t ∧ t.keys = ["1:0"] ∧ ∀ e ∈ t.entries, e.2.Acyclic := by
  obtain ⟨g₂, hrun, hfunctions, hnodes, hnext, hways⟩ :
      ∃ g₂, (UnitFile.ofNodes {} branchingLoop >>= fun u =>
          toGraph ⟨u, [], ∅, none⟩ >>= fun g => g.computeMetadata) = .ok g₂ ∧ g₂.functions.map (·.id) = ["1:0"] ∧
        g₂.functions.map g₂.flowNodes = [["1:1", "1:6", "1:2", "1:3", "1:4", "1:5"]] ∧
          ["1:1", "1:2", "1:3", "1:4", "1:5", "1:6"].map (fun n => (g₂.outEdgesOf n [.successor]).map (·.target)) =
            [[], ["1:3", "1:6"], ["1:4", "1:5"], ["1:2"], ["1:2"], []] ∧
          g₂.waysOut "1:2" "1:3" = [] ∧ g₂.waysOut "1:2" "1:6" = ["1:6"] := ⟨_, rfl, rfl, rfl, rfl, rfl, rfl⟩
  obtain ⟨u, hread, hrun⟩ := bind_eq_ok_iff.1 hrun
  obtain ⟨g, hg, hmeta⟩ := bind_eq_ok_iff.1 hrun
  simp only [map_cons, map_nil, cons.injEq] at hnext
  obtain ⟨h₁, h₂, h₃, h₄, h₅, h₆, -⟩ := hnext
  have hlast : ∀ t, ¬g₂.Next "1:6" t := by simp [Next, h₆]
  have htrap : ¬g₂.HasTrap ["1:1", "1:6", "1:2", "1:3", "1:4", "1:5"] := by
    rintro ⟨K, ⟨n, hn⟩, hsub, hK⟩
    -- every node leads to the last one, which does not go on
    have hk₁ : ¬K "1:1" := fun h => by simpa [Next, h₁] using hK.goesOn _ h
    have hk₆ : ¬K "1:6" := fun h => (hK.goesOn _ h).elim hlast
    have hk₂ : ¬K "1:2" := fun h => hk₆ (hK.stays _ _ h (by simp [Next, h₂]))
    have hk₄ : ¬K "1:4" := fun h => hk₂ (hK.stays _ _ h (by simp [Next, h₄]))
    have hk₅ : ¬K "1:5" := fun h => hk₂ (hK.stays _ _ h (by simp [Next, h₅]))
    have hk₃ : ¬K "1:3" := fun h => hk₄ (hK.stays _ _ h (by simp [Next, h₃]))
    have hmem := hsub n hn
    simp only [mem_cons, not_mem_nil, or_false] at hmem
    rcases hmem with rfl | rfl | rfl | rfl | rfl | rfl <;> contradiction
  have hunwinds : g₂.Unwinds ["1:1", "1:6", "1:2", "1:3", "1:4", "1:5"]
      fun n => if n = "1:3" then 2 else if n = "1:2" then 0 else 1 := by
    intro n hn
    simp only [mem_cons, not_mem_nil, or_false] at hn
    rcases hn with rfl | rfl | rfl | rfl | rfl | rfl
    · exact .inr (.inr fun t ht => by simp [Next, h₁] at ht)
    · exact .inr (.inr fun t ht => absurd ht (hlast t))
    · exact .inr (.inl (wellLeft_of_branch h₂ hways.1 hways.2 h₆ (by decide)))
    · refine .inr (.inr fun t ht _ => ?_)
      have ht : t = "1:4" ∨ t = "1:5" := by simpa [Next, h₃] using ht
      rcases ht with rfl | rfl <;> decide
    · refine .inr (.inr fun t ht _ => ?_)
      have ht : t = "1:2" := by simpa [Next, h₄] using ht
      rw [ht]
      decide
    · refine .inr (.inr fun t ht _ => ?_)
      have ht : t = "1:2" := by simpa [Next, h₅] using ht
      rw [ht]
      decide
  obtain ⟨hacyclic, -, hends⟩ := unrolledFunctions_outcome hread hg (.inl rfl) hmeta
  have hflow : ∀ f ∈ g₂.functions, g₂.flowNodes f = ["1:1", "1:6", "1:2", "1:3", "1:4", "1:5"] := fun f hf =>
    mem_singleton.1 (hnodes ▸ mem_map.2 ⟨f, hf, rfl⟩)
  obtain ⟨t, ht⟩ := hends fun f hf => by
    rw [hflow f hf]
    exact ⟨htrap, _, hunwinds⟩
  rcases hacyclic with ⟨t', ht', hkeys, hall⟩ | hendless
  · exact ⟨u, g, g₂, hread, hg, hmeta, t', ht', hkeys.trans hfunctions, fun e he => (hall e he).1⟩
  · rw [ht] at hendless
    cases hendless

open ParallelPatterns.Graph in
/-- Two loops that follow each other in turn are a trap: the unrolling never ends. -/
theorem unrolledFunctions_loopsInTurn :
    ∃ u g g₂, UnitFile.ofNodes {} loopsInTurn = .ok u ∧ ProgramInput.toGraph ⟨u, [], ∅, none⟩ = .ok g ∧
      g.computeMetadata = .ok g₂ ∧ g₂.unrolledFunctions false = .error .endless := by
  obtain ⟨g₂, hrun, hnodes, h₁, h₂⟩ :
      ∃ g₂, (UnitFile.ofNodes {} loopsInTurn >>= fun u =>
          ProgramInput.toGraph ⟨u, [], ∅, none⟩ >>= fun g => g.computeMetadata) = .ok g₂ ∧
        g₂.functions.map g₂.flowNodes = [["1:1", "1:2"]] ∧
          (g₂.outEdgesOf "1:1" [.successor]).map (·.target) = ["1:2"] ∧
            (g₂.outEdgesOf "1:2" [.successor]).map (·.target) = ["1:1"] := ⟨_, rfl, rfl, rfl, rfl⟩
  obtain ⟨u, hread, hrun⟩ := bind_eq_ok_iff.1 hrun
  obtain ⟨g, hg, hmeta⟩ := bind_eq_ok_iff.1 hrun
  have hfunction : ["1:1", "1:2"] ∈ g₂.functions.map g₂.flowNodes := by rw [hnodes]; simp
  obtain ⟨f, hf, hflow⟩ := mem_map.1 hfunction
  have h : g₂.Ordered := (ProgramInput.ordered_of_ofNodes hread hg (.inl rfl)).computeMetadata hmeta
  refine ⟨u, g, g₂, hread, hg, hmeta, h.unrolledFunctions_of_trap hf ?_⟩
  rw [hflow]
  refine ⟨fun n => n = "1:1" ∨ n = "1:2", ⟨"1:1", .inl rfl⟩, by simp, ?_, ?_⟩
  · rintro n (rfl | rfl)
    · exact ⟨"1:2", by simp [Next, h₁]⟩
    · exact ⟨"1:1", by simp [Next, h₂]⟩
  · rintro n t (rfl | rfl) ht
    · exact .inr (by simpa [Next, h₁] using ht)
    · exact .inl (by simpa [Next, h₂] using ht)

end ParallelPatterns
