import ParallelPatterns.Proofs.Computation
import ParallelPatterns.Proofs.Table
import ParallelPatterns.Task.Suggestion

/-!
# Computations on a plan

What the readers of a plan give, and how a loop over suggestions runs: turn by turn, up to the first
failure.
-/

namespace ParallelPatterns

open List

namespace Plan

variable (p : Plan)

/-- The suggestion about a task of a number. -/
def taskAt (i : Nat) : TaskSuggestion := ((p.known.getD i default).task?).getD default

/-- The groups of a suggestion. -/
def groupsAt (i : Nat) : List Int := p.groups.getD (p.taskAt i).group []

/-- The node of a suggestion. -/
def nodeAt (i : Nat) : Node := (p.graph.node? (p.taskAt i).node).getD default

/-- The current suggestions about tasks of a kind. -/
def numbered (k : TaskKind) : List Nat :=
  p.current.filter fun i => (p.known.getD i default).kind? == some k

variable {p} {i j : Nat}

theorem taskAt_of_get? {t : TaskSuggestion} (h : p.known.get? i = some (.task t)) :
    p.taskAt i = t := by
  simp [taskAt, Table.getD, h, Suggestion.task?]

end Plan

namespace Planning

variable {α β : Type} {p p₁ : Plan} (act : α → Planning Unit) {f : α → Planning β}

variable {a x : α} {e : Failure} {xs : List α} {k : α → Bool}

theorem runOn_bind_of_ok {t : Planning α} (h : t.runOn p = (.ok a, p₁)) :
    (t >>= f).runOn p = (f a).runOn p₁ :=
  run_bind_of_ok h

theorem runOn_bind_of_error {t : Planning α} (h : t.runOn p = (.error e, p₁)) :
    (t >>= f).runOn p = (.error e, p₁) :=
  run_bind_of_error h

/-! ## Readers -/

theorem runOn_mapM_of_reads {k : α → β} (h : ∀ x ∈ xs, (f x).runOn p = (.ok (k x), p)) :
    (xs.mapM f).runOn p = (.ok (xs.map k), p) := by
  induction xs with
  | nil => rfl
  | cons x xs ih =>
    have hrest := ih fun y hy => h y (mem_cons_of_mem x hy)
    rw [mapM_cons, runOn_bind_of_ok (h x mem_cons_self), runOn_bind_of_ok hrest]
    rfl

theorem runOn_filterAuxM_of_reads {f : α → Planning Bool}
    (h : ∀ x ∈ xs, (f x).runOn p = (.ok (k x), p)) (acc : List α) :
    (xs.filterAuxM f acc).runOn p = (.ok ((xs.filter k).reverse ++ acc), p) := by
  induction xs generalizing acc with
  | nil => rfl
  | cons x xs ih =>
    have hrest := ih fun y hy => h y (mem_cons_of_mem x hy)
    rw [filterAuxM, runOn_bind_of_ok (h x mem_cons_self), hrest]
    cases hk : k x <;> simp [hk]

theorem runOn_filterM_of_reads {f : α → Planning Bool} (h : ∀ x ∈ xs, (f x).runOn p = (.ok (k x), p)) :
    (xs.filterM f).runOn p = (.ok (xs.filter k), p) := by
  rw [filterM, runOn_bind_of_ok (runOn_filterAuxM_of_reads h [])]
  simp only [append_nil, reverse_reverse]
  rfl

theorem runOn_task (p : Plan) (i : Nat) : (task i).runOn p = (.ok (p.taskAt i), p) := rfl

theorem runOn_groupsOf (p : Plan) (i : Nat) : (groupsOf i).runOn p = (.ok (p.groupsAt i), p) := rfl

theorem runOn_graph (p : Plan) : graph.runOn p = (.ok p.graph, p) := rfl

theorem runOn_node {i : Nat} (h : (p.graph.node? (p.taskAt i).node).isSome) :
    (node (p.taskAt i).node).runOn p = (.ok (p.nodeAt i), p) := by
  obtain ⟨n, hn⟩ := Option.isSome_iff_exists.1 h
  have hnode : p.graph.node (p.taskAt i).node = .ok (p.nodeAt i) := by simp [Graph.node, Plan.nodeAt, hn]
  rw [node, query, runOn_bind_of_ok (runOn_graph p), hnode]
  rfl

theorem runOn_currentSuggestions (p : Plan) :
    currentSuggestions.runOn p = (.ok (p.current.map fun i => (i, p.known.getD i default)), p) := by
  exact runOn_mapM_of_reads fun _ _ => rfl

theorem runOn_tasksOf (p : Plan) (k : TaskKind) : (tasksOf k).runOn p = (.ok (p.numbered k), p) := by
  rw [tasksOf, numbersOf, runOn_bind_of_ok (runOn_currentSuggestions p), filter_map, map_map]
  exact congrArg (fun l => (Except.ok l, p)) (map_id _)

/-! ## Loops -/

/-- Runs a computation on each element of a list, as a loop does. -/
def each (xs : List α) (act : α → Planning Unit) : Planning PUnit :=
  forIn xs PUnit.unit fun x _ => do
    act x
    pure (.yield PUnit.unit)

theorem runOn_each_of_ok (h : (act x).runOn p = (.ok (), p₁)) (xs : List α) :
    (each (x :: xs) act).runOn p = (each xs act).runOn p₁ := by
  simp only [each, forIn_cons, bind_assoc]
  rw [runOn_bind_of_ok h]
  simp

theorem runOn_each_of_error (h : (act x).runOn p = (.error e, p₁)) (xs : List α) :
    (each (x :: xs) act).runOn p = (.error e, p₁) := by
  simp only [each, forIn_cons, bind_assoc]
  exact runOn_bind_of_error h

/-! ## Runs that end -/

/-- A computation ends on a plan, and a condition holds of its answer and of the plan it leaves. -/
def Ends (t : Planning α) (p : Plan) (Q : α → Plan → Prop) : Prop :=
  ∃ a q, t.runOn p = (.ok a, q) ∧ Q a q

section Ends

variable {t : Planning α} {P Q : α → Plan → Prop} {R : β → Plan → Prop}

theorem Ends.mono (h : t.Ends p P) (hPQ : ∀ a q, P a q → Q a q) : t.Ends p Q := by
  obtain ⟨a, q, hrun, hP⟩ := h
  exact ⟨a, q, hrun, hPQ a q hP⟩

theorem ends_pure (h : Q a p) : (pure a : Planning α).Ends p Q := ⟨a, p, rfl, h⟩

theorem Ends.bind (h : t.Ends p P) (hf : ∀ a q, P a q → (f a).Ends q R) : (t >>= f).Ends p R := by
  obtain ⟨a, q, hrun, hP⟩ := h
  obtain ⟨b, r, hrest, hR⟩ := hf a q hP
  exact ⟨b, r, (runOn_bind_of_ok hrun).trans hrest, hR⟩

theorem ends_bind_of_ok (h : t.runOn p = (.ok a, p)) : (t >>= f).Ends p R ↔ (f a).Ends p R := by
  rw [Ends, runOn_bind_of_ok h, Ends]

theorem Ends.foldlM {step : β → α → Planning β} {I : List α → β → Plan → Prop}
    (hstep : ∀ x xs b q, I (x :: xs) b q → (step b x).Ends q (I xs)) {b : β} (h : I xs b p) :
    (xs.foldlM step b).Ends p (I []) := by
  induction xs generalizing b p with
  | nil => exact ends_pure h
  | cons x xs ih =>
    exact (hstep x xs b p h).bind fun b' q hI => ih hI

end Ends

end Planning

end ParallelPatterns
