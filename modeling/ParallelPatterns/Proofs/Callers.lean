import ParallelPatterns.Proofs.Forest

/-!
# Asking callers

Whether a node may run before a node of another function, the callers of its function are asked
first, one after the other until one says yes, and each of them asks the callers of its own
function. Nothing keeps a caller from being asked while it asks. So the recursion has no end, with
any bound on its depth, if and only if a caller is met that comes back to itself; a recursion that
ends does so within a depth of two more than the number of nodes.
-/

namespace ParallelPatterns.Graph

open List

variable {g : Graph} {s t c : NodeId} {fuel fuel' : Nat}

theorem isPredecessorGo_succ (g : Graph) (fuel : Nat) (s t : NodeId) :
    g.isPredecessorGo (fuel + 1) s t = g.turn s t fun c => g.isPredecessorGo fuel c t := by
  rw [isPredecessorGo]

/-! ## Failures on the way -/

theorem node_ne_endless (g : Graph) (id : NodeId) : g.node id ≠ .error .endless := by
  unfold node
  split <;> exact nofun

theorem parentFunction_ne_endless (g : Graph) (n : Node) : g.parentFunction n ≠ .error .endless := by
  unfold parentFunction
  split
  · exact nofun
  · split
    · split
      · exact nofun
      · exact g.node_ne_endless _
    · exact nofun

theorem bind_ne_endless {α β : Type} {x : Result α} {f : α → Result β} (hx : x ≠ .error .endless)
    (hf : ∀ a, f a ≠ .error .endless) : (x >>= f) ≠ .error .endless := by
  cases x with
  | error e => exact fun h => hx (congrArg Except.error (Except.error.inj h))
  | ok a => exact hf a

theorem callersToAsk_ne_endless (g : Graph) (s t : NodeId) : g.callersToAsk s t ≠ .error .endless :=
  bind_ne_endless (g.node_ne_endless s) fun source => bind_ne_endless (g.node_ne_endless t) fun target =>
    bind_ne_endless (g.parentFunction_ne_endless source) fun _ =>
      bind_ne_endless (g.parentFunction_ne_endless target) fun _ => nofun

theorem ownAnswer_ne_endless (g : Graph) (s t : NodeId) : g.ownAnswer s t ≠ .error .endless := by
  refine bind_ne_endless (g.node_ne_endless t) fun target => ?_
  split
  · split <;> exact nofun
  · exact nofun

section

variable {ask ask' : NodeId → Result Bool} {callers : List NodeId}

theorem turn_of_ok (h : g.callersToAsk s t = .ok callers) :
    g.turn s t ask = (callers.anyM ask).bind fun yes => if yes then .ok true else g.ownAnswer s t := by
  rw [turn, h]
  rfl

theorem turn_eq_endless_iff :
    g.turn s t ask = .error .endless ↔
      ∃ callers, g.callersToAsk s t = .ok callers ∧ callers.anyM ask = .error .endless := by
  cases hcallers : g.callersToAsk s t with
  | error e =>
    have hturn : g.turn s t ask = .error e := by
      rw [turn, hcallers]
      rfl
    refine iff_of_false (fun h => ?_) (by simp)
    obtain rfl : e = .endless := Except.error.inj (hturn.symm.trans h)
    exact g.callersToAsk_ne_endless s t hcallers
  | ok callers =>
    rw [turn_of_ok hcallers]
    simp only [Except.ok.injEq, exists_eq_left']
    cases callers.anyM ask with
    | error e => exact Iff.rfl
    | ok yes =>
      refine iff_of_false (fun h => ?_) nofun
      cases yes with
      | true => cases h
      | false => exact g.ownAnswer_ne_endless s t h

end

/-! ## Depth -/

theorem isPredecessorGo_succ_eq (g : Graph) (t : NodeId) (fuel : Nat) (s : NodeId) :
    g.isPredecessorGo fuel s t = .error .endless ∨ g.isPredecessorGo fuel s t =
      g.isPredecessorGo (fuel + 1) s t := by
  induction fuel generalizing s with
  | zero => exact .inl rfl
  | succ fuel ih =>
    rw [isPredecessorGo_succ, isPredecessorGo_succ g (fuel + 1), turn_eq_endless_iff]
    cases hcallers : g.callersToAsk s t with
    | error e =>
      refine .inr ?_
      rw [turn, turn, hcallers]
      rfl
    | ok callers =>
      have hasked : ∀ c ∈ callers, _ := fun c _ => ih c
      rcases anyM_eq_error_or hasked with hendless | hsame
      · exact .inl ⟨callers, rfl, hendless⟩
      · exact .inr (by rw [turn_of_ok hcallers, turn_of_ok hcallers, hsame])

theorem isPredecessorGo_eq_of_le (hle : fuel ≤ fuel') (hends : g.isPredecessorGo fuel s t ≠ .error .endless) :
    g.isPredecessorGo fuel' s t = g.isPredecessorGo fuel s t := by
  induction hle with
  | refl => rfl
  | @step fuel' _ ih =>
    rw [← ih]
    exact ((isPredecessorGo_succ_eq g t fuel' s).resolve_left (ih ▸ hends)).symm

theorem isPredecessorGo_eq (hends : g.isPredecessorGo fuel s t ≠ .error .endless)
    (hends' : g.isPredecessorGo fuel' s t ≠ .error .endless) :
    g.isPredecessorGo fuel s t = g.isPredecessorGo fuel' s t := by
  rcases Nat.le_total fuel fuel' with hle | hle
  · exact (isPredecessorGo_eq_of_le hle hends).symm
  · exact isPredecessorGo_eq_of_le hle hends'

/-! ## Callers that are asked -/

/-- The node asks the caller: those before the caller say no. -/
def Asks (g : Graph) (t s c : NodeId) : Prop :=
  ∃ before after, g.callersToAsk s t = .ok (before ++ c :: after) ∧
    ∀ b ∈ before, ∃ fuel, g.isPredecessorGo fuel b t = .ok false

theorem Asks.known (h : g.Asks t s c) : s ∈ g.nodes.keys := by
  obtain ⟨before, after, hcallers, -⟩ := h
  obtain ⟨n, hn, -⟩ := bind_eq_ok_iff.1 hcallers
  refine mem_keys_iff.2 ?_
  unfold node at hn
  split at hn
  · rename_i hsome
    rw [hsome]
    rfl
  · cases hn

theorem isPredecessorGo_succ_eq_endless_iff :
    g.isPredecessorGo (fuel + 1) s t = .error .endless ↔
      ∃ c, g.Asks t s c ∧ g.isPredecessorGo fuel c t = .error .endless := by
  rw [isPredecessorGo_succ, turn_eq_endless_iff]
  constructor
  · rintro ⟨callers, hcallers, hendless⟩
    obtain ⟨before, c, after, rfl, hbefore, hc⟩ := exists_of_anyM_eq_error hendless
    exact ⟨c, ⟨before, after, hcallers, fun b hb => ⟨fuel, hbefore b hb⟩⟩, hc⟩
  · rintro ⟨c, ⟨before, after, hcallers, hbefore⟩, hendless⟩
    refine ⟨_, hcallers, anyM_eq_error (fun b hb => or_iff_not_imp_left.2 fun hends => ?_) hendless⟩
    obtain ⟨fuel', hno⟩ := hbefore b hb
    rw [isPredecessorGo_eq hends (by rw [hno]; exact nofun), hno]

/-- A caller is met that comes back to itself. -/
def AsksInCircle (g : Graph) (t s : NodeId) : Prop :=
  ∃ c, Relation.ReflTransGen (g.Asks t) s c ∧ Relation.TransGen (g.Asks t) c c

theorem AsksInCircle.step (h : g.AsksInCircle t s) : ∃ c, g.Asks t s c ∧ g.AsksInCircle t c := by
  obtain ⟨c, hway, hcircle⟩ := h
  rcases Relation.ReflTransGen.cases_head hway with rfl | ⟨d, hsd, hdc⟩
  · obtain ⟨d, hsd, hds⟩ := Relation.TransGen.head'_iff.1 hcircle
    exact ⟨d, hsd, s, hds, hcircle⟩
  · exact ⟨d, hsd, c, hdc, hcircle⟩

theorem AsksInCircle.endless (h : g.AsksInCircle t s) (fuel : Nat) :
    g.isPredecessorGo fuel s t = .error .endless := by
  induction fuel generalizing s with
  | zero => rfl
  | succ fuel ih =>
    obtain ⟨c, hasks, hc⟩ := h.step
    exact isPredecessorGo_succ_eq_endless_iff.2 ⟨c, hasks, ih hc⟩

theorem isPredecessorGo_ne_endless (h : ¬g.AsksInCircle t s)
    (hfuel : Search.countBelow (g.Asks t) g.nodes.keys s + 1 < fuel) :
    g.isPredecessorGo fuel s t ≠ .error .endless := by
  induction fuel generalizing s with
  | zero => exact absurd hfuel (Nat.not_lt_zero _)
  | succ fuel ih =>
    intro hendless
    obtain ⟨c, hasks, hc⟩ := isPredecessorGo_succ_eq_endless_iff.1 hendless
    have hcircle : ¬g.AsksInCircle t c := fun ⟨d, hcd, hd⟩ => h ⟨d, .head hasks hcd, hd⟩
    cases fuel with
    | zero => omega
    | succ fuel =>
      -- a caller that asks is a node of the graph
      obtain ⟨d, hd, -⟩ := isPredecessorGo_succ_eq_endless_iff.1 hc
      have hless := Search.countBelow_lt hasks hd.known fun hcc => hcircle ⟨c, .refl, hcc⟩
      exact ih hcircle (by omega) hc

/-- The recursion ends, with some bound on its depth, if and only if no caller is met that comes
back to itself; the bound that is used is then deep enough, and any bound that is gives the same
answer. -/
theorem isPredecessor_ends_iff (g : Graph) (s t : NodeId) :
    ((∃ fuel, g.isPredecessorGo fuel s t ≠ .error .endless) ↔ ¬g.AsksInCircle t s) ∧
      (g.isPredecessor s t ≠ .error .endless ↔ ¬g.AsksInCircle t s) ∧
      ∀ fuel, g.isPredecessorGo fuel s t ≠ .error .endless → g.isPredecessorGo fuel s t = g.isPredecessor s t := by
  have hdepth : Search.countBelow (g.Asks t) g.nodes.keys s + 1 < g.size + 2 := by
    have hsize : g.size = g.nodes.keys.length := by simp [size, Table.keys]
    have hle := Search.countBelow_le (g.Asks t) g.nodes.keys s
    omega
  have hends : g.isPredecessor s t ≠ .error .endless ↔ ¬g.AsksInCircle t s :=
    ⟨fun hends hcircle => hends (hcircle.endless _), fun hcircle => isPredecessorGo_ne_endless hcircle hdepth⟩
  have hsome : (∃ fuel, g.isPredecessorGo fuel s t ≠ .error .endless) ↔ ¬g.AsksInCircle t s :=
    ⟨fun h hcircle => h.elim fun fuel hfuel => hfuel (hcircle.endless fuel), fun hcircle => ⟨_, hends.2 hcircle⟩⟩
  exact ⟨hsome, hends, fun fuel hfuel => isPredecessorGo_eq hfuel (hends.2 (hsome.1 ⟨fuel, hfuel⟩))⟩

/-- A function that calls another one, which calls itself. -/
def selfCalling : Graph :=
  ofEdges [numbered "1:0" 0 (.function {}), numbered "1:1" 1 (.unit {}), numbered "1:2" 2 (.unit {}),
      numbered "1:3" 3 (.function {}), { numbered "1:4" 4 (.unit {}) with parentFunction := some "1:3" }]
    [("1:0", "1:1", .child), ("1:0", "1:2", .child), ("1:1", "1:2", .successor),
      ("1:2", "1:3", .call), ("1:3", "1:4", .child), ("1:4", "1:3", .call)]

/-- The unit that calls its own function asks itself, after the first caller has said no. -/
theorem isPredecessor_endless_selfCalling :
    (∀ fuel, selfCalling.isPredecessorGo fuel "1:4" "1:1" = .error .endless) ∧
      selfCalling.isPredecessor "1:4" "1:1" = .error .endless := by
  have hasks : selfCalling.Asks "1:1" "1:4" "1:4" := ⟨["1:2"], [], rfl, by simpa using ⟨1, rfl⟩⟩
  have hcircle : selfCalling.AsksInCircle "1:1" "1:4" := ⟨"1:4", .refl, .single hasks⟩
  exact ⟨hcircle.endless, hcircle.endless _⟩

end ParallelPatterns.Graph
