import Mathlib.Logic.Relation
import ParallelPatterns.Proofs.Relatives
import ParallelPatterns.Proofs.Subtree
import ParallelPatterns.Task.Ancestry

/-!
# The nodes before a node

Two searches go back over successor edges. One collects the nodes that may run before a node, and
goes no further than to functions and waits; the other one looks for a target and goes past no
blocked node. Both fix where they go on before they go there, and can come to a node again. Still
they end, as a node that is entered was new when the node behind it was entered. What they have not
met is then cut off by the nodes at which they stop (`Graph.Searched`).
-/

namespace ParallelPatterns.Graph

open List Relation

variable {g : Graph} {stop : Node → Bool} {m n target blocked : Node} {ns ps visited found more rest : List Node}

/-- The nodes that a node follows directly. -/
def before (g : Graph) (n : Node) : List Node := g.sources (g.inEdgesOf n.id [.successor])

/-- Successor edges lead from a node to another one, and only the first node may be one that stops a
search. -/
def LeadsPast (g : Graph) (stop : Node → Bool) : Node → Node → Prop :=
  ReflTransGen fun a b => a ∈ g.before b ∧ stop b = false

theorem exists_node?_of_mem_before (h : m ∈ g.before n) : ∃ id, g.node? id = some m := by
  obtain ⟨e, -, he⟩ := mem_filterMap.1 h
  exact ⟨e.source, he⟩

theorem LeadsPast.exists_node? (h : g.LeadsPast stop m n) (hn : g.node? n.id = some n) :
    ∃ id, g.node? id = some m := by
  rcases h.cases_head with rfl | ⟨_, hstep, -⟩
  · exact ⟨_, hn⟩
  · exact exists_node?_of_mem_before hstep.1

/-! ## What a search has found -/

/-- What a search that goes back from some nodes has found: nodes that lead to these, and with each
one that does not stop the search all before it, up to nodes with the same numbers. -/
structure Searched (g : Graph) (stop : Node → Bool) (visited ns found : List Node) : Prop where
  met : ∀ n ∈ ns, n.among (visited ++ found)
  leads : ∀ m ∈ found, ∃ n ∈ ns, g.LeadsPast stop m n
  closed : ∀ m ∈ found, stop m = false → ∀ p ∈ g.before m, p.among (visited ++ found)

theorem among_append : n.among (ns ++ ps) ↔ n.among ns ∨ n.among ps := by
  simp [Node.among]

theorem among_append_self (n : Node) : n.among (visited ++ n :: more) := by
  simp [Node.among, n.alike_refl]

namespace Searched

theorem nil : g.Searched stop visited [] [] := ⟨by simp, by simp, by simp⟩

theorem met_before (h : n.among visited) : g.Searched stop visited [n] [] :=
  ⟨by simpa using h, by simp, by simp⟩

/-- A node is found, and then what its search finds before it. -/
theorem visit (h : g.Searched stop (visited ++ [n]) ps found) (hps : ∀ p ∈ ps, p ∈ g.before n ∧ stop n = false)
    (hbefore : stop n = false → ∀ p ∈ g.before n, p ∈ ps ∨ p.among (visited ++ [n])) :
    g.Searched stop visited [n] (n :: found) := by
  have hout : visited ++ n :: found = visited ++ [n] ++ found := by simp
  refine ⟨by simpa using among_append_self n, forall_mem_cons.2 ⟨⟨n, mem_cons_self, .refl⟩, fun m hm => ?_⟩,
    forall_mem_cons.2 ⟨fun hstop p hp => ?_, hout ▸ h.closed⟩⟩
  · obtain ⟨p, hp, hleads⟩ := h.leads m hm
    exact ⟨n, mem_cons_self, hleads.tail (hps p hp)⟩
  · rw [hout]
    exact (hbefore hstop p hp).elim (h.met p) fun hp => among_append.2 (.inl hp)

/-- The searches from a node and from the next ones are one search. -/
theorem append (h : g.Searched stop visited [n] more) (hrest : g.Searched stop (visited ++ more) ns rest) :
    g.Searched stop visited (n :: ns) (more ++ rest) := by
  refine ⟨?_, fun m hm => ?_, fun m hm hstop p hp => ?_⟩
  · rw [← append_assoc]
    exact forall_mem_cons.2 ⟨among_append.2 (.inl (h.met n mem_cons_self)), hrest.met⟩
  · rcases mem_append.1 hm with hm | hm
    · obtain ⟨k, hk, hleads⟩ := h.leads m hm
      exact ⟨n, mem_cons_self, mem_singleton.1 hk ▸ hleads⟩
    · obtain ⟨k, hk, hleads⟩ := hrest.leads m hm
      exact ⟨k, mem_cons_of_mem _ hk, hleads⟩
  · rw [← append_assoc]
    rcases mem_append.1 hm with hm | hm
    · exact among_append.2 (.inl (h.closed m hm hstop p hp))
    · exact hrest.closed m hm hstop p hp

/-- Where the numbers of nodes differ, a search from one node finds all that leads to it. -/
theorem mem_iff (h : g.Searched stop [] [n] found) (hnumbers : g.NumbersDiffer)
    (hn : g.node? n.id = some n) : m ∈ found ↔ g.LeadsPast stop m n := by
  have hleads : ∀ m ∈ found, g.LeadsPast stop m n := by simpa using h.leads
  have hfound {m : Node} (hm : g.LeadsPast stop m n) (hmet : m.among found) : m ∈ found := by
    obtain ⟨k, hk, halike⟩ := among_iff.1 hmet
    obtain ⟨_, hknown⟩ := (hleads k hk).exists_node? hn
    obtain ⟨_, hknown'⟩ := hm.exists_node? hn
    rwa [← hnumbers.eq_of_alike hknown hknown' halike]
  refine ⟨hleads m, fun hm => ?_⟩
  induction hm using ReflTransGen.head_induction_on with
  | refl => exact hfound .refl (h.met n mem_cons_self)
  | head hstep hm ih => exact hfound (.head hstep hm) (h.closed _ ih hstep.2 _ hstep.1)

end Searched

/-- The number of nodes that a search can still enter. -/
def unseen (g : Graph) (visited : List Node) : Nat := (g.allNodes.filter fun m => !m.among visited).length

/-- Behind a new node, fewer nodes are new. -/
theorem unseen_append_lt (hp : m ∈ g.before n) (hnew : m.among visited = false)
    (hmore : m.among more) : g.unseen (visited ++ more) < g.unseen visited := by
  obtain ⟨_, hknown⟩ := exists_node?_of_mem_before hp
  exact length_filter_lt (fun k => by simp +contextual [Node.among]) (mem_allNodes_of_node? hknown) (by simp [hnew])
    (by simp [among_append, hmore])

/-! ## Collecting nodes -/

/-- Does the search for what runs before a node stop at a node? -/
def isBarrier (n : Node) : Bool := n.isFunction || n.containsTaskwait

theorem searched_foldlM {start : List Node}
    (hps : ∀ p ∈ ps, ∀ more, ∃ found, g.predecessors p (start ++ more) = some (found, start ++ more ++ found) ∧
      g.Searched stop (start ++ more) [p] found) (before found : List Node) :
    ∃ more, ps.foldlM (fun (s : List Node × List Node) p => do
        let r ← g.predecessors p s.2
        return (s.1 ++ r.1, r.2)) (found, start ++ before) = some (found ++ more, start ++ before ++ more) ∧
      g.Searched stop (start ++ before) ps more := by
  induction ps generalizing before found with
  | nil => exact ⟨[], by simp, .nil⟩
  | cons p ps ih =>
    obtain ⟨hp, hps⟩ := forall_mem_cons.1 hps
    obtain ⟨more, hmore, hsearched⟩ := hp before
    obtain ⟨rest, hrest, hall⟩ := ih hps (before ++ more) (found ++ more)
    refine ⟨more ++ rest, ?_, hsearched.append (by simpa using hall)⟩
    rw [foldlM_cons, hmore]
    simpa using hrest

/-- The search ends, and has found what leads back to its start. -/
theorem searched_predecessors (g : Graph) (n : Node) (visited : List Node) :
    ∃ found, g.predecessors n visited = some (found, visited ++ found) ∧
      g.Searched isBarrier visited [n] found := by
  induction hk : g.unseen (visited ++ [n]) using Nat.strong_induction_on generalizing n visited with
  | h k ih =>
    subst hk
    rw [predecessors.eq_def]
    by_cases hstop : isBarrier n
    · exact ⟨[n], if_pos hstop, .visit .nil (by simp) (by simp [hstop])⟩
    · have hps : ∀ p ∈ g.unvisitedInto n .successor (visited ++ [n]), ∀ more, _ := fun p hp more => by
        obtain ⟨hbefore, hnew⟩ := mem_filter.1 hp
        refine ih _ ?_ p (visited ++ [n] ++ more) rfl
        rw [append_assoc]
        exact unseen_append_lt hbefore (by simpa using hnew) (among_append_self p)
      obtain ⟨more, hmore, hsearched⟩ := searched_foldlM hps [] [n]
      rw [append_nil] at hmore hsearched
      refine ⟨n :: more, (if_neg hstop).trans (by simpa using hmore), .visit hsearched (fun p hp => ?_) ?_⟩
      · exact ⟨(mem_filter.1 hp).1, by simpa using hstop⟩
      · intro _ p hp
        cases hmet : p.among (visited ++ [n]) with
        | true => exact .inr rfl
        | false => exact .inl (mem_filter.2 ⟨hp, by simp [hmet]⟩)

/-- The search for what runs before a node ends. Both lists that it gives have the nodes from which
successor edges lead to the node, past no wait and no function. -/
theorem predecessors_collects (hnumbers : g.NumbersDiffer) (hn : g.node? n.id = some n) :
    ∃ found, g.predecessors n [] = some (found, found) ∧ ∀ m, m ∈ found ↔ g.LeadsPast isBarrier m n := by
  obtain ⟨found, hends, hsearched⟩ := g.searched_predecessors n []
  exact ⟨found, hends, fun m => hsearched.mem_iff hnumbers hn⟩

/-- A unit of a graph in the file `1`. -/
def unitAt (number : Nat) : Node := numbered (position 1 number) number (.unit {})

/-- Two units in front of a circle of two others, and a unit behind it. -/
def circledUnits : Graph :=
  ofEdges ([1, 2, 3, 4].map unitAt) [("1:1", "1:2", .successor), ("1:2", "1:3", .successor),
    ("1:3", "1:2", .successor), ("1:3", "1:4", .successor)]

theorem numbersDiffer_circledUnits : circledUnits.NumbersDiffer := by
  unfold NumbersDiffer
  decide

theorem before_circledUnits : unitAt 1 ∈ circledUnits.before (unitAt 2) ∧
    unitAt 2 ∈ circledUnits.before (unitAt 3) ∧
    circledUnits.before (unitAt 4) = [unitAt 3] := ⟨.head _, .head _, rfl⟩

/-- The unit in front of the circle may run before the one behind it. -/
theorem predecessors_collects_circledUnits :
    circledUnits.node? (unitAt 4).id = some (unitAt 4) ∧
      ∃ found, circledUnits.predecessors (unitAt 4) [] = some (found, found) ∧ unitAt 1 ∈ found := by
  obtain ⟨found, hrun, hfound⟩ := predecessors_collects numbersDiffer_circledUnits
    (show circledUnits.node? (unitAt 4).id = some (unitAt 4) from rfl)
  obtain ⟨hfirst, hsecond, hlast⟩ := before_circledUnits
  refine ⟨rfl, found, hrun, (hfound _).2 ?_⟩
  exact .tail (.tail (.single ⟨hfirst, rfl⟩) ⟨hsecond, rfl⟩) ⟨hlast ▸ mem_cons_self, rfl⟩

/-! ## Looking for a target -/

/-- Does the search for a target stop at a node? -/
def isEnd (target blocked m : Node) : Bool := m.alike target || m.alike blocked

/-- What a search for a target ends with: a way from the target, or all that it found without
meeting it. -/
def Outcome (g : Graph) (target blocked : Node) (visited ns : List Node) : Bool × List Node → Prop
  | (true, _) => ∃ n ∈ ns, ∃ m, m.alike target ∧ g.LeadsPast (isEnd target blocked) m n
  | (false, out) => ∃ found, out = visited ++ found ∧ g.Searched (isEnd target blocked) visited ns found ∧
      ∀ m ∈ found, m.alike target = false

def Ends (g : Graph) (target blocked : Node) (visited ns : List Node) (search : Option (Bool × List Node)) : Prop :=
  ∃ out, search = some out ∧ g.Outcome target blocked visited ns out

theorem ends_foldlM (hps : ∀ p ∈ ps, ∀ more, g.Ends target blocked (visited ++ more) [p]
      (g.searchBack target blocked p (visited ++ more))) (before : List Node) :
    g.Ends target blocked (visited ++ before) ps (ps.foldlM (fun (s : Bool × List Node) p =>
      if s.1 then some s else g.searchBack target blocked p s.2) (false, visited ++ before)) := by
  induction ps generalizing before with
  | nil => exact ⟨_, rfl, [], by simp, .nil, by simp⟩
  | cons p ps ih =>
    obtain ⟨hp, hps⟩ := forall_mem_cons.1 hps
    obtain ⟨⟨hit, out⟩, hrun, hout⟩ := hp before
    rw [foldlM_cons, hrun]
    cases hit with
    | true =>
      have hkept : ∀ qs : List Node, qs.foldlM (fun (s : Bool × List Node) p =>
          if s.1 then some s else g.searchBack target blocked p s.2) (true, out) = some (true, out) := by
        intro qs
        induction qs with
        | nil => rfl
        | cons q qs ih => exact ih
      obtain ⟨_, hn, hfound⟩ := hout
      exact ⟨_, hkept ps, p, mem_cons_self, mem_singleton.1 hn ▸ hfound⟩
    | false =>
      obtain ⟨found, rfl, hsearched, hnone⟩ := hout
      obtain ⟨⟨hit, out⟩, hrun, hout⟩ := ih hps (before ++ found)
      rw [← append_assoc] at hrun hout
      refine ⟨_, hrun, ?_⟩
      cases hit with
      | true => exact hout.imp fun q hq => ⟨mem_cons_of_mem _ hq.1, hq.2⟩
      | false =>
        obtain ⟨rest, rfl, hrest, hnone'⟩ := hout
        exact ⟨found ++ rest, append_assoc _ _ _, hsearched.append hrest,
          fun m hm => (mem_append.1 hm).elim (hnone m) (hnone' m)⟩

theorem ends_of_among (hmet : n.among visited) :
    g.Ends target blocked visited [n] (g.searchBack target blocked n visited) := by
  rw [searchBack.eq_def, if_pos hmet]
  exact ⟨_, rfl, [], by simp, .met_before hmet, by simp⟩

theorem ends_searchBack (g : Graph) (target blocked n : Node) (visited : List Node) :
    g.Ends target blocked visited [n] (g.searchBack target blocked n visited) := by
  induction hk : g.unseen (visited ++ [n]) using Nat.strong_induction_on generalizing n visited with
  | h k ih =>
    subst hk
    by_cases hmet : n.among visited
    · exact ends_of_among hmet
    rw [searchBack.eq_def, if_neg hmet]
    by_cases htarget : n.alike target
    · exact ⟨_, if_pos htarget, n, mem_cons_self, n, htarget, .refl⟩
    by_cases hblocked : n.alike blocked
    · refine ⟨_, (if_neg htarget).trans (if_pos hblocked), [n], rfl, .visit .nil (by simp) ?_,
        by simpa using htarget⟩
      simp [isEnd, hblocked]
    have hps : ∀ p ∈ g.before n, ∀ more, g.Ends target blocked (visited ++ [n] ++ more) [p]
        (g.searchBack target blocked p (visited ++ [n] ++ more)) := fun p hp more => by
      by_cases hmet : p.among (visited ++ [n] ++ more)
      · exact ends_of_among hmet
      · refine ih _ ?_ p (visited ++ [n] ++ more) rfl
        rw [append_assoc]
        refine unseen_append_lt hp ?_ (among_append_self p)
        simpa using fun h => hmet (among_append.2 (.inl h))
    obtain ⟨⟨hit, out⟩, hrun, hout⟩ := ends_foldlM hps []
    rw [append_nil] at hrun hout
    refine ⟨_, (if_neg htarget).trans ((if_neg hblocked).trans hrun), ?_⟩
    have hgo : isEnd target blocked n = false := by simp [isEnd, htarget, hblocked]
    cases hit with
    | true =>
      obtain ⟨p, hp, m, halike, hleads⟩ := hout
      exact ⟨n, mem_cons_self, m, halike, hleads.tail ⟨hp, hgo⟩⟩
    | false =>
      obtain ⟨found, rfl, hsearched, hnone⟩ := hout
      exact ⟨n :: found, by simp, .visit hsearched (fun p hp => ⟨hp, hgo⟩) fun _ p hp => .inl hp,
        forall_mem_cons.2 ⟨by simpa using htarget, hnone⟩⟩

/-- Successor edges lead from the target to a node, and no other node on the way is the blocked
one. -/
def LeadsAround (g : Graph) (target blocked : Node) : Node → Prop :=
  ReflTransGen (fun a b => a ∈ g.before b ∧ (b = target ∨ b ≠ blocked)) target

/-- Behind the last time that a way passes the target, nothing that stops the search comes. -/
theorem LeadsAround.leadsPast (hsame : ∀ m, g.LeadsPast (isEnd target blocked) m n →
      (m.alike target ↔ m = target) ∧ (m.alike blocked ↔ m = blocked))
    (h : g.LeadsAround target blocked n) : g.LeadsPast (isEnd target blocked) target n := by
  have hpast {m : Node} (hm : ReflTransGen (fun a b => a ∈ g.before b ∧ (b = target ∨ b ≠ blocked)) m n) :
      g.LeadsPast (isEnd target blocked) m n ∨ g.LeadsPast (isEnd target blocked) target n := by
    induction hm using ReflTransGen.head_induction_on with
    | refl => exact .inl .refl
    | @head a b hstep _ ih =>
      rcases ih with ih | ih
      · by_cases hb : b = target
        · exact .inr (hb ▸ ih)
        · have hgo : isEnd target blocked b = false := by
            simpa [isEnd, ← Bool.not_eq_true, hsame b ih] using ⟨hb, hstep.2.resolve_left hb⟩
          exact .inl (.head ⟨hstep.1, hgo⟩ ih)
      · exact .inr ih
  exact (hpast h).elim id id

theorem LeadsPast.leadsAround (h : g.LeadsPast (isEnd target blocked) target n) :
    g.LeadsAround target blocked n := by
  refine ReflTransGen.mono (fun a b hstep => ⟨hstep.1, .inr fun hsame => ?_⟩) _ _ h
  simp [isEnd, hsame, blocked.alike_refl] at hstep

/-- The search back to a target ends, and meets it if and only if successor edges lead from it to
the start of the search past no blocked node. -/
theorem reachesBackWithout_iff (hnumbers : g.NumbersDiffer) (hn : g.node? n.id = some n)
    (htarget : g.node? target.id = some target) (hblocked : g.node? blocked.id = some blocked) :
    (∃ visited, g.searchBack target blocked n [] = some (g.reachesBackWithout n target blocked, visited)) ∧
      (g.reachesBackWithout n target blocked = true ↔ g.LeadsAround target blocked n) := by
  have hsame : ∀ m, g.LeadsPast (isEnd target blocked) m n →
      (m.alike target ↔ m = target) ∧ (m.alike blocked ↔ m = blocked) := by
    intro m hm
    obtain ⟨_, hknown⟩ := hm.exists_node? hn
    exact ⟨⟨hnumbers.eq_of_alike hknown htarget, fun h => h ▸ m.alike_refl⟩,
      hnumbers.eq_of_alike hknown hblocked, fun h => h ▸ m.alike_refl⟩
  obtain ⟨⟨hit, visited⟩, hrun, hout⟩ := g.ends_searchBack target blocked n []
  have hanswer : g.reachesBackWithout n target blocked = hit := by simp [reachesBackWithout, hrun]
  rw [hanswer]
  refine ⟨⟨visited, hrun⟩, ?_⟩
  cases hit with
  | true =>
    obtain ⟨_, hn', m, halike, hleads⟩ := hout
    obtain rfl := mem_singleton.1 hn'
    exact iff_of_true rfl ((hsame m hleads).1.1 halike ▸ hleads).leadsAround
  | false =>
    obtain ⟨found, -, hsearched, hnone⟩ := hout
    refine iff_of_false (by simp) fun hleads => ?_
    have hmissed := hnone target ((hsearched.mem_iff hnumbers hn).2 (hleads.leadsPast hsame))
    simp [target.alike_refl] at hmissed

/-- The unit in front of the circle is met from the one behind it, but not if the second unit of the
circle is blocked. -/
theorem reachesBackWithout_circledUnits :
    circledUnits.reachesBackWithout (unitAt 4) (unitAt 1) (unitAt 1) = true ∧
      circledUnits.reachesBackWithout (unitAt 4) (unitAt 1) (unitAt 3) = false := by
  have hne {i j : Nat} (hid : (unitAt i).id ≠ (unitAt j).id) : unitAt i ≠ unitAt j := fun h => hid (h ▸ rfl)
  obtain ⟨hfirst, hsecond, hlast⟩ := before_circledUnits
  have hiff {i : Nat} (hi : circledUnits.node? (unitAt i).id = some (unitAt i)) := reachesBackWithout_iff
    numbersDiffer_circledUnits (show circledUnits.node? (unitAt 4).id = some (unitAt 4) from rfl)
    (show circledUnits.node? (unitAt 1).id = some (unitAt 1) from rfl) hi
  refine ⟨(hiff rfl).2.2 ?_, Bool.eq_false_iff.2 fun h => ?_⟩
  · have hback : circledUnits.LeadsAround (unitAt 1) (unitAt 1) (unitAt 3) :=
      .tail (.single ⟨hfirst, .inr (hne (by decide))⟩) ⟨hsecond, .inr (hne (by decide))⟩
    exact .tail hback ⟨hlast ▸ mem_cons_self, .inr (hne (by decide))⟩
  · rcases ((hiff (i := 3) rfl).2.1 h).cases_tail with hsame | ⟨b, hleads, hstep, -⟩
    · exact hne (by decide) hsame
    · obtain rfl : b = unitAt 3 := by simpa [hlast] using hstep
      rcases hleads.cases_tail with hsame | ⟨_, -, -, hsame | hother⟩
      · exact hne (by decide) hsame
      · exact hne (by decide) hsame
      · exact hother rfl

end ParallelPatterns.Graph
