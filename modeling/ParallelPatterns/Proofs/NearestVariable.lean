import ParallelPatterns.Proofs.Reachability

/-!
# The nearest variable of a name

The search for a variable goes backwards over successor edges, with a queue. What is in the queue
stands in two layers: first what is some number of edges away from the start, then what is one edge
further away, and everything nearer has been visited (`Search.Layers`). So the first unit with a
variable of the name is a nearest one, also on circles, and without one the search ends when all
that leads to the start has been visited.
-/

namespace ParallelPatterns

open List

namespace Search

variable {α : Type} {next : α → List α} {start x : α} {near far queue visited : List α} {k : Nat}

/-- The start leads to an element in the given number of turns. -/
inductive LeadsIn (next : α → List α) (start : α) : Nat → α → Prop
  | start : LeadsIn next start 0 start
  | next {k : Nat} {x y : α} (h : LeadsIn next start k x) (hy : y ∈ next x) : LeadsIn next start (k + 1) y

theorem leads_iff_leadsIn : Leads next start x ↔ ∃ k, LeadsIn next start k x := by
  constructor
  · intro h
    induction h with
    | refl => exact ⟨0, .start⟩
    | tail _ hstep ih =>
      obtain ⟨k, hk⟩ := ih
      exact ⟨k + 1, hk.next hstep⟩
  · rintro ⟨k, hk⟩
    induction hk with
    | start => exact .refl
    | next _ hy ih => exact ih.tail hy

/-- What is at most `k` turns away has been visited or is in the first part of the queue, and what
is nearer has been visited. The second part of the queue is one turn further away. -/
structure Layers (next : α → List α) (start : α) (k : Nat) (near far visited : List α) : Prop where
  nodup : (visited ++ (near ++ far)).Nodup
  within : ∀ x, x ∈ visited ∨ x ∈ near ↔ ∃ j ≤ k, LeadsIn next start j x
  beyond : ∀ x ∈ far, LeadsIn next start (k + 1) x
  closed : ∀ v ∈ visited, ∀ y ∈ next v, y ∈ visited ∨ y ∈ near ++ far
  nearer : ∀ j x, j < k → LeadsIn next start j x → x ∈ visited

theorem layers_start : Layers next start 0 [start] [] [] where
  nodup := by simp
  within x := by
    constructor
    · intro hx
      obtain rfl : x = start := by simpa using hx
      exact ⟨0, Nat.le_refl _, .start⟩
    · rintro ⟨j, hj, hx⟩
      obtain rfl : j = 0 := by omega
      cases hx
      simp
  beyond := by simp
  closed := by simp
  nearer j _ hj := absurd hj (by omega)

theorem Layers.onward (h : Layers next start k [] far visited) : Layers next start (k + 1) far [] visited where
  nodup := by simpa using h.nodup
  within x := by
    constructor
    · rintro (hx | hx)
      · obtain ⟨j, hj, hx⟩ := (h.within x).1 (.inl hx)
        exact ⟨j, by omega, hx⟩
      · exact ⟨k + 1, Nat.le_refl _, h.beyond x hx⟩
    · rintro ⟨j, hj, hx⟩
      cases hx with
      | start =>
        have hstart := (h.within start).2 ⟨0, by omega, .start⟩
        exact .inl (by simpa using hstart)
      | @next j y _ hy hx =>
        have hvisited : y ∈ visited := by simpa using (h.within y).2 ⟨j, by omega, hy⟩
        simpa using h.closed y hvisited x hx
  beyond := by simp
  closed v hv y hy := by simpa using h.closed v hv y hy
  nearer j x hj hx := by simpa using (h.within x).2 ⟨j, by omega, hx⟩

theorem Layers.turn (h : Layers next start k (x :: near) far visited) {new : List α}
    (hnodup : new.Nodup) (hnew : ∀ y ∈ new, y ∈ next x ∧ y ∉ visited ++ [x] ∧ y ∉ near ++ far)
    (hmet : ∀ y ∈ next x, y ∈ visited ++ [x] ∨ y ∈ near ++ far ++ new) :
    Layers next start k near (far ++ new) (visited ++ [x]) where
  nodup := by
    have hold : (visited ++ [x] ++ (near ++ far)).Nodup := by simpa using h.nodup
    have hall : (visited ++ [x] ++ (near ++ far) ++ new).Nodup := by
      refine nodup_append'.2 ⟨hold, hnodup, fun y hy hy' => ?_⟩
      rcases mem_append.1 hy with hy | hy
      · exact (hnew y hy').2.1 hy
      · exact (hnew y hy').2.2 hy
    simpa using hall
  within y := by
    rw [← h.within y, mem_append, mem_singleton, mem_cons]
    tauto
  beyond y hy := by
    rcases mem_append.1 hy with hy | hy
    · exact h.beyond y hy
    · obtain ⟨hy, hfresh, hqueue⟩ := hnew y hy
      obtain ⟨j, hj, hx⟩ := (h.within x).1 (.inr mem_cons_self)
      -- what is new is not within reach yet, so its predecessor is as far away as it can be
      have hfar : ¬∃ i ≤ k, LeadsIn next start i y := by
        rw [← h.within y, mem_cons]
        simp only [mem_append, mem_singleton] at hfresh hqueue
        tauto
      obtain rfl : j = k := by
        by_contra hne
        exact hfar ⟨j + 1, by omega, hx.next hy⟩
      exact hx.next hy
  closed v hv y hy := by
    rcases mem_append.1 hv with hv | hv
    · have hy := h.closed v hv y hy
      simp only [mem_append, mem_cons] at hy ⊢
      tauto
    · obtain rfl := mem_singleton.1 hv
      simpa [or_assoc] using hmet y hy
  nearer j y hj hy := mem_append_left _ (h.nearer j y hj hy)

def Layered (next : α → List α) (start : α) (queue visited : List α) : Prop :=
  ∃ k near far, near ++ far = queue ∧ Layers next start k near far visited

theorem layered_start : Layered next start [start] [] := ⟨0, [start], [], rfl, layers_start⟩

theorem Layered.first (h : Layered next start (x :: queue) visited) :
    ∃ k near far, near ++ far = queue ∧ Layers next start k (x :: near) far visited := by
  obtain ⟨k, near, far, hqueue, h⟩ := h
  cases near with
  | nil =>
    obtain rfl : far = x :: queue := hqueue
    exact ⟨k + 1, queue, [], append_nil _, h.onward⟩
  | cons y near =>
    obtain ⟨rfl, rfl⟩ := cons_eq_cons.1 hqueue
    exact ⟨k, near, far, rfl, h⟩

theorem Layered.notMem (h : Layered next start (x :: queue) visited) : x ∉ visited := by
  obtain ⟨k, near, far, -, h⟩ := h.first
  intro hx
  exact disjoint_of_nodup_append h.nodup hx (by simp)

theorem Layered.nearest (h : Layered next start (x :: queue) visited) :
    ∃ k, LeadsIn next start k x ∧ ∀ j y, LeadsIn next start j y → y ∉ visited → k ≤ j := by
  obtain ⟨k, near, far, -, h⟩ := h.first
  obtain ⟨j, hj, hx⟩ := (h.within x).1 (.inr mem_cons_self)
  refine ⟨j, hx, fun i y hy hnew => ?_⟩
  by_contra hlt
  exact hnew (h.nearer i y (by omega) hy)

theorem Layered.all_visited (h : Layered next start [] visited) {y : α} (hy : Leads next start y) :
    y ∈ visited := by
  obtain ⟨k, near, far, hqueue, h⟩ := h
  obtain ⟨rfl, rfl⟩ := append_eq_nil_iff.1 hqueue
  induction hy with
  | refl => simpa using (h.within start).2 ⟨0, by omega, .start⟩
  | tail _ hstep ih => simpa using h.closed _ ih _ hstep

theorem enqueue_eq [BEq α] [LawfulBEq α] (visited queue xs : List α) :
    ∃ new, enqueue visited queue xs = queue ++ new ∧ new.Nodup ∧
      (∀ y ∈ new, y ∈ xs ∧ y ∉ visited ∧ y ∉ queue) ∧ ∀ y ∈ xs, y ∈ visited ∨ y ∈ queue ++ new := by
  induction xs generalizing queue with
  | nil => exact ⟨[], by simp [enqueue], by simp⟩
  | cons p xs ih =>
    by_cases hp : p ∈ visited ∨ p ∈ queue
    · obtain ⟨new, hqueue, hnodup, hnew, hmet⟩ := ih queue
      refine ⟨new, ?_, hnodup, fun y hy => ⟨mem_cons_of_mem p (hnew y hy).1, (hnew y hy).2⟩, ?_⟩
      · rw [← hqueue, enqueue, foldl_cons, if_pos (by simpa using hp)]
        rfl
      · refine forall_mem_cons.2 ⟨?_, hmet⟩
        rw [mem_append]
        tauto
    · obtain ⟨new, hqueue, hnodup, hnew, hmet⟩ := ih (queue ++ [p])
      have hpnew : p ∉ new := fun hmem => (hnew p hmem).2.2 (by simp)
      refine ⟨p :: new, ?_, nodup_cons.2 ⟨hpnew, hnodup⟩,
        forall_mem_cons.2 ⟨⟨mem_cons_self, not_or.1 hp⟩, fun y hy => ?_⟩, ?_⟩
      · rw [← append_cons] at hqueue
        rw [← hqueue, enqueue, foldl_cons, if_neg (by simpa using hp)]
        rfl
      · obtain ⟨hy, hvisited, hnotin⟩ := hnew y hy
        exact ⟨mem_cons_of_mem p hy, hvisited, fun hmem => hnotin (mem_append_left _ hmem)⟩
      · refine forall_mem_cons.2 ⟨.inr (by simp), fun y hy => ?_⟩
        simpa using hmet y hy

end Search

namespace Graph

variable {g : Graph} {root id : NodeId} {name : String} {queue visited : List NodeId}

/-- The unit has a variable of the name. -/
def Declares (g : Graph) (id : NodeId) (name : String) : Prop :=
  ∃ n, g.node? id = some n ∧ n.isUnit ∧ ∃ v ∈ n.ownVariables, v.name = some name

/-- That many successor edges lead from one node to the other. -/
def FollowsIn (g : Graph) (k : Nat) (id root : NodeId) : Prop :=
  Search.LeadsIn (fun id => (g.inEdgesOf id [.successor]).map (·.source)) root k id

theorem follows_iff_followsIn : g.Follows id root ↔ ∃ k, g.FollowsIn k id root := by
  show g.Follows id root ↔ ∃ k, Search.LeadsIn _ root k id
  rw [← Search.leads_iff_leadsIn, leads_sources_iff]
  rfl

/-- Successor edges join units. -/
def SuccessorsJoinUnits (g : Graph) : Prop :=
  ∀ e ∈ g.linkedEdges, e.dep.edge = .successor →
    (∃ n, g.node? e.source = some n ∧ n.isUnit) ∧ ∃ n, g.node? e.target = some n ∧ n.isUnit

/-- What the search for a variable may answer: nothing if no unit that leads to the root has a
variable of the name, else a variable of a nearest one. -/
structure IsNearest (g : Graph) (root : NodeId) (name : String) (answer : Option Variable) : Prop where
  none_iff : answer = none ↔ ∀ id, g.Follows id root → ¬g.Declares id name
  nearest : ∀ v, answer = some v → v.name = some name ∧ ∃ k id n, g.node? id = some n ∧ n.isUnit ∧
    v ∈ n.ownVariables ∧ g.FollowsIn k id root ∧ ∀ j id', g.FollowsIn j id' root → g.Declares id' name → k ≤ j

theorem declaredAt_eq {n : Node} (hn : g.node? id = some n) (hunit : n.isUnit) (name : String) :
    g.declaredAt id name = .ok (n.ownVariables.find? fun v => v.name == some name) := by
  rw [declaredAt, node, hn]
  cases hbody : n.body with
  | unit b =>
    simp [Node.unit?, Node.ownVariables, Node.locals, Node.globals, hbody, bind, Except.bind, pure,
      Except.pure]
  | _ => simp [Node.isUnit, Node.kind, hbody] at hunit

theorem not_declares_of_declaredAt (h : g.declaredAt id name = .ok none) : ¬g.Declares id name := by
  rintro ⟨n, hn, hunit, v, hv, hname⟩
  rw [declaredAt_eq hn hunit, Except.ok.injEq, find?_eq_none] at h
  exact h v hv (by simp [hname])

theorem SuccessorsJoinUnits.unit_of_follows (h : g.SuccessorsJoinUnits)
    (hroot : ∃ n, g.node? root = some n ∧ n.isUnit)
    (hfollows : g.Follows id root) : ∃ n, g.node? id = some n ∧ n.isUnit := by
  rcases Relation.ReflTransGen.cases_head hfollows with rfl | ⟨target, htarget, -⟩
  · exact hroot
  · obtain ⟨e, he, hedge, rfl, -⟩ := mem_successorIds_iff.1 htarget
    exact (h e he hedge).1

theorem layered_enqueue
    (h : Search.Layered (fun id => (g.inEdgesOf id [.successor]).map (·.source)) root (id :: queue) visited) :
    Search.Layered (fun id => (g.inEdgesOf id [.successor]).map (·.source)) root
      (Search.enqueue (visited ++ [id]) queue ((g.inEdgesOf id [.successor]).map (·.source)))
        (visited ++ [id]) := by
  obtain ⟨k, near, far, rfl, hlayers⟩ := h.first
  obtain ⟨new, hqueue, hnodup, hnew, hmet⟩ :=
    Search.enqueue_eq (visited ++ [id]) (near ++ far) ((g.inEdgesOf id [.successor]).map (·.source))
  rw [hqueue]
  exact ⟨k, near, far ++ new, by simp, hlayers.turn hnodup hnew hmet⟩

theorem exists_findVariableGo (hunits : ∀ id, g.Follows id root → ∃ n, g.node? id = some n ∧ n.isUnit) (name : String)
    (queue visited : List NodeId)
    (h : Search.Layered (fun id => (g.inEdgesOf id [.successor]).map (·.source)) root queue visited)
    (hnone : ∀ v ∈ visited, ¬g.Declares v name) :
    ∃ answer, g.findVariableGo name queue visited = some (.ok answer) ∧ g.IsNearest root name answer := by
  match queue with
  | [] =>
    refine ⟨none, by rw [findVariableGo.eq_def], ⟨fun _ id hid => ?_, fun _ => rfl⟩, nofun⟩
    exact hnone id (h.all_visited (leads_sources_iff.2 hid))
  | id :: queue =>
    obtain ⟨k, hk, hnearest⟩ := h.nearest
    have hfollows : g.Follows id root := follows_iff_followsIn.2 ⟨k, hk⟩
    obtain ⟨n, hn, hunit⟩ := hunits id hfollows
    have hfind := declaredAt_eq hn hunit name
    cases hvar : n.ownVariables.find? fun v => v.name == some name with
    | some v =>
      have hmem : v ∈ n.ownVariables := mem_of_find?_eq_some hvar
      have hname : v.name = some name := by simpa using find?_some hvar
      rw [hvar] at hfind
      have hdeclares : g.Declares id name := ⟨n, hn, hunit, v, hmem, hname⟩
      refine ⟨some v, by rw [findVariableGo.eq_def]; simp only [hfind], ⟨?_, ?_⟩⟩
      · exact ⟨nofun, fun hnot => absurd hdeclares (hnot id hfollows)⟩
      · rintro _ ⟨⟩
        refine ⟨hname, k, id, n, hn, hunit, hmem, hk, fun j id' hj hdeclares => ?_⟩
        exact hnearest j id' hj fun hvisited => hnone id' hvisited hdeclares
    | none =>
      rw [hvar] at hfind
      have hvisit : addNew visited id = visited ++ [id] := if_neg (by simpa using h.notMem)
      rw [findVariableGo.eq_def]
      simp only [hfind, hvisit]
      refine exists_findVariableGo hunits name _ _ (layered_enqueue h) fun v hv => ?_
      rcases mem_append.1 hv with hv | hv
      · exact hnone v hv
      · obtain rfl := mem_singleton.1 hv
        exact not_declares_of_declaredAt hfind
termination_by ((root :: g.links.map (·.source)).filter fun y => !visited.contains y).length
decreasing_by
  have hspace : id ∈ root :: g.links.map (·.source) :=
    (leads_sources_iff.2 hfollows).mem_of_closed (fun x _ => g.sources_subset [.successor] root x) mem_cons_self
  exact length_filter_lt (fun y => by simp; tauto) hspace (by simpa using h.notMem) (by simp)

/-- Over successor edges that join units, the search for a variable from a unit on ends: with
nothing if and only if no unit that leads to this one has a variable of the name, else with a
variable of a nearest such unit. -/
theorem findVariable_nearest (h : g.SuccessorsJoinUnits)
    (hroot : ∃ n, g.node? root = some n ∧ n.isUnit) (name : String) :
    ∃ answer, g.findVariableGo name [root] [] = some (.ok answer) ∧ g.findVariable root name = .ok answer ∧
      (answer = none ↔ ∀ id, g.Follows id root → ¬g.Declares id name) ∧
      ∀ v, answer = some v → v.name = some name ∧ ∃ k id n, g.node? id = some n ∧ n.isUnit ∧ v ∈ n.ownVariables ∧
        g.FollowsIn k id root ∧ ∀ j id', g.FollowsIn j id' root → g.Declares id' name → k ≤ j := by
  obtain ⟨answer, hrun, hanswer⟩ := exists_findVariableGo (fun id => h.unit_of_follows hroot) name [root] []
    Search.layered_start (by simp)
  exact ⟨answer, hrun, by rw [findVariable, hrun]; rfl, hanswer.none_iff, hanswer.nearest⟩

/-- Two units that follow each other in turn, behind a unit with a variable `x`, behind another one
with such a variable. -/
def unitsInTurn : Graph :=
  let declaring : UnitBody := { locals := [.named "x"] }
  ofEdges [numbered "1:1" 1 (.unit declaring), numbered "1:2" 2 (.unit declaring),
      numbered "1:3" 3 (.unit {}), numbered "1:4" 4 (.unit {})]
    [("1:1", "1:2", .successor), ("1:2", "1:3", .successor), ("1:3", "1:4", .successor), ("1:4", "1:3", .successor)]

/-- From the last unit on, a variable two edges away is found. -/
theorem findVariable_nearest_unitsInTurn :
    unitsInTurn.SuccessorsJoinUnits ∧ (∃ n, unitsInTurn.node? "1:4" = some n ∧ n.isUnit) ∧
      ∃ v k id, unitsInTurn.findVariable "1:4" "x" = .ok (some v) ∧ v.name = some "x" ∧
        unitsInTurn.FollowsIn k id "1:4" ∧ k ≤ 2 := by
  have hends : ∀ e ∈ unitsInTurn.linkedEdges,
      ((unitsInTurn.node? e.source).any Node.isUnit &&
        (unitsInTurn.node? e.target).any Node.isUnit) = true := by decide
  have h : unitsInTurn.SuccessorsJoinUnits := by
    intro e he _
    have hboth := Bool.and_eq_true_iff.1 (hends e he)
    exact ⟨(Option.any_eq_true _ _).1 hboth.1, (Option.any_eq_true _ _).1 hboth.2⟩
  have hroot : ∃ n, unitsInTurn.node? "1:4" = some n ∧ n.isUnit := ⟨_, rfl, rfl⟩
  have hdeclares : unitsInTurn.Declares "1:2" "x" := ⟨_, rfl, rfl, .named "x", by decide, rfl⟩
  have hone : unitsInTurn.FollowsIn 1 "1:3" "1:4" := .next .start (by decide)
  have htwo : unitsInTurn.FollowsIn 2 "1:2" "1:4" := .next hone (by decide)
  refine ⟨h, hroot, ?_⟩
  obtain ⟨answer, -, hrun, hnone, hsome⟩ := findVariable_nearest h hroot "x"
  cases answer with
  | none => exact absurd hdeclares (hnone.1 rfl "1:2" (follows_iff_followsIn.2 ⟨2, htwo⟩))
  | some v =>
    obtain ⟨hname, k, id, -, -, -, -, hk, hle⟩ := hsome v rfl
    exact ⟨v, k, id, hrun, hname, hk, hle 2 "1:2" htwo hdeclares⟩

end Graph

end ParallelPatterns
