import Mathlib.Data.List.Flatten
import ParallelPatterns.Proofs.AccessTables
import ParallelPatterns.Proofs.WellFormed
import ParallelPatterns.Task.Groups

/-!
# The search around a wait

The nodes around a wait are collected from a queue. A node at which nothing is waited for enters the
queue once and stays among the nodes that were met; a wait is dropped when its turn comes and may
enter again, but only next to a node that is collected. So each turn takes away from an effort that
is bounded from the start, and the search ends with an empty queue.
-/

namespace ParallelPatterns.Graph

open List

variable {fuel : Nat} {n : Node} {queue relatives : List Node}

/-- The nodes that the search passes through. -/
def passable (ns : List Node) : List Node := ns.filter fun n => !n.containsTaskwait

def unmet (g : Graph) (seen : List Node) : List Node :=
  (passable g.allNodes).filter fun m => !m.among (passable seen)

/-- A bound on the turns that a search still takes: one for each node in the queue, and for each
passable node that is in the queue or has not been met one for every wait that it may bring in. -/
def effort (g : Graph) (queue relatives : List Node) : Nat :=
  queue.length + 2 * g.edgeCount * (passable queue).length +
    (2 * g.edgeCount + 1) * (g.unmet (relatives ++ queue)).length

variable {g : Graph}

/-! ## The size of the graph -/

theorem length_linkedEdges (g : Graph) : g.linkedEdges.length = g.edgeCount := by
  simp [linkedEdges, edgeCount, total_eq_sum, Link.toEdges]

theorem length_edges_le (g : Graph) (p : Link → Bool) (q : Edge → Bool) :
    (((g.links.filter p).flatMap Link.toEdges).filter q).length ≤ g.edgeCount := by
  rw [← length_linkedEdges]
  exact (filter_sublist.trans (filter_sublist.flatMap _)).length_le

theorem length_sources_le (g : Graph) (id : NodeId) (kinds : List EdgeKind) :
    (g.sources (g.inEdgesOf id kinds)).length ≤ g.edgeCount :=
  (length_filterMap_le _ _).trans (g.length_edges_le _ _)

theorem length_near_le (g : Graph) (id : NodeId) : (g.near id).length ≤ 2 * g.edgeCount := by
  have hin := g.length_sources_le id [.successor]
  have hout : (g.successors id).length ≤ g.edgeCount :=
    (length_filterMap_le _ _).trans (g.length_edges_le _ _)
  rw [near, length_append]
  omega

variable {id : NodeId} {ns : List Node}

theorem mem_allNodes_of_mem_near (h : n ∈ g.near id) : n ∈ g.allNodes := by
  rcases mem_append.1 h with h | h
  · obtain ⟨e, -, he⟩ := mem_filterMap.1 h
    exact mem_allNodes_of_node? he
  · obtain ⟨e, -, he⟩ := mem_filterMap.1 h
    exact mem_allNodes_of_node? he

/-! ## One turn -/

theorem among_iff : n.among ns ↔ ∃ m ∈ ns, m.alike n := by
  simp [Node.among]

theorem length_unmet_append_lt {m : Node} (hm : m ∈ g.allNodes) (hpassable : m.containsTaskwait = false)
    {seen : List Node} (hnew : m.among seen = false) : (g.unmet (seen ++ [m])).length < (g.unmet seen).length := by
  have hpart : m.among (passable seen) = false := by
    rw [← Bool.not_eq_true, among_iff] at hnew ⊢
    rintro ⟨k, hk, halike⟩
    exact hnew ⟨k, (mem_filter.1 hk).1, halike⟩
  refine length_filter_lt (fun k => ?_) (mem_filter.2 ⟨hm, by simp [hpassable]⟩) (by simp [hpart]) ?_
  · simp +contextual [passable, Node.among]
  · simp [passable, Node.among, hpassable, Node.alike_refl]

theorem effort_enqueue_le (hns : ∀ m ∈ ns, m ∈ g.allNodes) (queue relatives : List Node) :
    g.effort (enqueue relatives queue ns) relatives ≤ g.effort queue relatives + ns.length := by
  induction ns generalizing queue with
  | nil => exact Nat.le_refl _
  | cons m ns ih =>
    have hrest := ih fun k hk => hns k (mem_cons_of_mem m hk)
    have hstep : enqueue relatives queue (m :: ns) =
        enqueue relatives (if m.among (relatives ++ queue) then queue else queue ++ [m]) ns := rfl
    rw [hstep, length_cons]
    by_cases hmet : m.among (relatives ++ queue)
    · rw [if_pos hmet]
      have := hrest queue
      omega
    · rw [if_neg hmet]
      have hone : g.effort (queue ++ [m]) relatives ≤ g.effort queue relatives + 1 := by
        unfold effort
        rw [← append_assoc, length_append, length_singleton]
        cases hwait : m.containsTaskwait with
        | true =>
          have hpassable : ∀ ns, passable (ns ++ [m]) = passable ns := fun ns => by simp [passable, hwait]
          rw [unmet, hpassable, hpassable, ← unmet]
          omega
        | false =>
          have hlt := length_unmet_append_lt (hns m mem_cons_self) hwait (Bool.eq_false_iff.2 hmet)
          have hpassable : (passable (queue ++ [m])).length = (passable queue).length + 1 := by
            simp [passable, hwait]
          rw [hpassable]
          -- the node was counted among the unmet ones and is now counted in the queue
          have hmul := Nat.mul_le_mul_left (2 * g.edgeCount + 1) (Nat.succ_le_of_lt hlt)
          rw [Nat.mul_succ] at hmul
          rw [Nat.mul_succ]
          omega
      have := hrest (queue ++ [m])
      omega

theorem effort_wait (h : n.containsTaskwait) (queue relatives : List Node) :
    g.effort queue relatives + 1 ≤ g.effort (n :: queue) relatives := by
  have hpassable : passable (n :: queue) = passable queue := by simp [passable, h]
  have hunmet : g.unmet (relatives ++ n :: queue) = g.unmet (relatives ++ queue) := by
    simp [unmet, passable, h]
  unfold effort
  rw [hpassable, hunmet, length_cons]
  omega

theorem effort_passable (h : n.containsTaskwait = false) (queue relatives : List Node) :
    g.effort (enqueue (relatives ++ [n]) queue (g.near n.id)) (relatives ++ [n]) + 1 ≤
      g.effort (n :: queue) relatives := by
  have hnear : g.effort (enqueue (relatives ++ [n]) queue (g.near n.id)) (relatives ++ [n]) ≤
      g.effort queue (relatives ++ [n]) + (g.near n.id).length :=
    effort_enqueue_le (fun m hm => mem_allNodes_of_mem_near hm) queue (relatives ++ [n])
  have hlength := g.length_near_le n.id
  have hpassable : (passable (n :: queue)).length = (passable queue).length + 1 := by simp [passable, h]
  have htaken : g.effort (n :: queue) relatives = g.effort queue (relatives ++ [n]) + 2 * g.edgeCount + 1 := by
    unfold effort
    rw [hpassable, append_assoc, singleton_append, length_cons, Nat.mul_succ]
    omega
  omega

/-! ## The whole search -/

theorem relativesGo_add (h : g.effort queue relatives ≤ fuel)
    (more : Nat) : g.relativesGo (fuel + more) queue relatives = g.relativesGo fuel queue relatives := by
  induction fuel generalizing queue relatives with
  | zero =>
    have hempty : queue = [] := by
      unfold effort at h
      exact eq_nil_of_length_eq_zero (by omega)
    subst hempty
    cases more with
    | zero => rfl
    | succ more => rw [Nat.zero_add, relativesGo, relativesGo]
  | succ fuel ih =>
    rw [Nat.add_right_comm]
    cases queue with
    | nil => rw [relativesGo, relativesGo]
    | cons n queue =>
      cases hwait : n.containsTaskwait with
      | true =>
        rw [relativesGo, relativesGo, if_pos hwait, if_pos hwait]
        have := g.effort_wait hwait queue relatives
        exact ih (by omega)
      | false =>
        simp only [relativesGo, hwait]
        have := g.effort_passable hwait queue relatives
        exact ih (by omega)

theorem effort_start_le (g : Graph) (n : Node) :
    g.effort (g.sources (g.inEdgesOf n.id [.successor])) [n] ≤ (2 * g.edgeCount + 1) * (g.edgeCount + g.size) := by
  have hqueue := g.length_sources_le n.id [.successor]
  generalize g.sources (g.inEdgesOf n.id [.successor]) = queue at hqueue
  have hpassable : (passable queue).length ≤ g.edgeCount := (length_filter_le _ _).trans hqueue
  have hunmet : (g.unmet ([n] ++ queue)).length ≤ g.size := by
    refine (length_filter_le _ _).trans ((length_filter_le _ _).trans ?_)
    exact (length_map _).le
  have h₁ := Nat.mul_le_mul_left (2 * g.edgeCount) hpassable
  have h₂ := Nat.mul_le_mul_left (2 * g.edgeCount + 1) hunmet
  have hone : (2 * g.edgeCount + 1) * g.edgeCount = 2 * g.edgeCount * g.edgeCount + g.edgeCount := by
    rw [Nat.add_mul, Nat.one_mul]
  unfold effort
  rw [Nat.mul_add]
  omega

/-- The search around a wait ends by itself: any number of further turns finds the same nodes. -/
theorem relativesGo_eq_relativesOf (g : Graph) (n : Node)
    (h : (2 * g.edgeCount + 1) * (g.edgeCount + g.size) ≤ fuel) :
    g.relativesGo fuel (g.sources (g.inEdgesOf n.id [.successor])) [n] = g.relativesOf n := by
  rw [← Nat.add_sub_of_le h]
  exact relativesGo_add (g.effort_start_le n) _

end ParallelPatterns.Graph
