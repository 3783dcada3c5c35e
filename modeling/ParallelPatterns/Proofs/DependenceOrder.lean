import ParallelPatterns.Proofs.TaskClasses

/-!
# The classes of a task and the order of dependences

The dependences around a task are a set, and the order in which they come differs from run to run.
All tests on the variables of the task but one only ask for the existence of a dependence. The one
on first writes may hang on the order; here it is said when it does, and when the classes of the
task are the same in every order.
-/

namespace ParallelPatterns

open List

/-- The surroundings of a task with their dependences in another order. -/
inductive TaskContext.Reordered (c : TaskContext) : TaskContext → Prop
  | intro {raw war waw reverseRaw reverseWar : List Edge} (hraw : raw ~ c.raw) (hwar : war ~ c.war)
    (hwaw : waw ~ c.waw) (hreverseRaw : reverseRaw ~ c.reverseRaw)
    (hreverseWar : reverseWar ~ c.reverseWar) :
      Reordered c { c with raw, war, waw, reverseRaw, reverseWar }

namespace Graph

variable {g : Graph} {c c' : TaskContext} {v : Variable} {regions : List Region}

/-! ## Tests that do not hang on the order -/

theorem isTaskIndex_reordered (h : c.Reordered c') : g.isTaskIndex c' regions = g.isTaskIndex c regions := by
  obtain ⟨hraw, -, -, -, -⟩ := h
  exact (hraw.filter _).any_eq

theorem isCombined_reordered (h : c.Reordered c') : g.isCombined c' v = g.isCombined c v := by
  cases h
  rfl

theorem boundClass_reordered (h : c.Reordered c') : g.boundClass c' v regions = g.boundClass c v regions := by
  obtain ⟨hraw, hwar, hwaw, hreverseRaw, -⟩ := h
  simp only [boundClass, Access.dependsIn, Access.dependsOut, Access.writtenIn, Access.readOnly, hraw.any_eq,
    hreverseRaw.any_eq, (hraw.append hwaw).any_eq, ((hwar.append hwaw).append hreverseRaw).all_eq]
  rfl

/-! ## The test on first writes -/

/-- No test before the one on first writes finds a class for the variable. -/
structure IsOpen (g : Graph) (c : TaskContext) (v : Variable) (regions : List Region) : Prop where
  not_index : g.isTaskIndex c regions = false
  not_combined : g.isCombined c v = .ok false
  not_bound : g.boundClass c v regions = .ok none

theorem IsOpen.taskClassOf_eq (h : g.IsOpen c v regions) :
    g.taskClassOf c v regions = g.writtenClass c v regions := by
  rw [taskClassOf, if_neg (by simp [h.not_index]), h.not_combined, h.not_bound]
  rfl

theorem IsOpen.reordered (h : g.IsOpen c v regions) (horder : c.Reordered c') : g.IsOpen c' v regions where
  not_index := (isTaskIndex_reordered horder).trans h.not_index
  not_combined := (isCombined_reordered horder).trans h.not_combined
  not_bound := (boundClass_reordered horder).trans h.not_bound

theorem taskClassOf_reordered_of_not_isOpen (h : c.Reordered c') (hopen : ¬ g.IsOpen c v regions) :
    g.taskClassOf c' v regions = g.taskClassOf c v regions := by
  rw [taskClassOf, taskClassOf, isTaskIndex_reordered h, isCombined_reordered h, boundClass_reordered h]
  cases hindex : g.isTaskIndex c regions with
  | true => rfl
  | false =>
    cases hcombined : g.isCombined c v with
    | error f => rfl
    | ok combined =>
      cases combined with
      | true => rfl
      | false =>
        cases hbound : g.boundClass c v regions with
        | error f => rfl
        | ok bound =>
          cases bound with
          | some k => rfl
          | none => exact absurd ⟨hindex, hcombined, hbound⟩ hopen

theorem writtenClass_reordered (h : c.Reordered c')
    (hsettled : ¬ Access.HangsOnOrder v.name regions c.raw c.war c.units) :
    g.writtenClass c' v regions = g.writtenClass c v regions := by
  obtain ⟨hraw, hwar, -, hreverseRaw, hreverseWar⟩ := h
  simp only [writtenClass, Access.readIn_perm hraw hwar hreverseRaw hreverseWar,
    Access.writtenFirst_perm_iff.2 hsettled _ _ _ _ hraw hwar hreverseRaw hreverseWar]

theorem writtenClass_eq_none_iff :
    g.writtenClass c v regions = .ok none ↔
      Access.writtenFirst v.name regions c.raw c.war c.reverseRaw c.reverseWar c.units = .ok false := by
  constructor
  · intro h
    obtain ⟨first, hfirst, h⟩ := bind_eq_ok_iff.1 h
    cases first with
    | false => exact hfirst
    | true =>
      obtain ⟨scalar, -, h⟩ := bind_eq_ok_iff.1 h
      split at h <;> cases h
  · intro hfirst
    rw [writtenClass, hfirst]
    rfl

/-- A variable has one class in all orders exactly if the test on first writes does not matter to it. -/
theorem taskClassOf_reordered_iff :
    (∀ c', c.Reordered c' → g.taskClassOf c' v regions = g.taskClassOf c v regions) ↔
      (g.IsOpen c v regions → ¬ Access.HangsOnOrder v.name regions c.raw c.war c.units) := by
  constructor
  · intro hsame hopen hangs
    obtain ⟨⟨raw₁, war₁, hraw₁, hwar₁, hfalse⟩, raw₂, war₂, hraw₂, hwar₂, hother⟩ :=
      hangs.exists_orders c.reverseRaw c.reverseWar
    have hfirst : c.Reordered { c with raw := raw₁, war := war₁ } :=
      .intro hraw₁ hwar₁ (.refl _) (.refl _) (.refl _)
    have hsecond : c.Reordered { c with raw := raw₂, war := war₂ } :=
      .intro hraw₂ hwar₂ (.refl _) (.refl _) (.refl _)
    -- one order gives no class, so the other one gives none either
    have hnone := (hopen.reordered hfirst).taskClassOf_eq.trans (writtenClass_eq_none_iff.2 hfalse)
    rw [hsame _ hfirst, ← hsame _ hsecond, (hopen.reordered hsecond).taskClassOf_eq,
      writtenClass_eq_none_iff] at hnone
    rcases hother with hother | hother <;> cases hnone.symm.trans hother
  · intro hsettled c' h
    by_cases hopen : g.IsOpen c v regions
    · rw [(hopen.reordered h).taskClassOf_eq, hopen.taskClassOf_eq, writtenClass_reordered h (hsettled hopen)]
    · exact taskClassOf_reordered_of_not_isOpen h hopen

/-! ## The classes of a task -/

theorem classifyIn_reordered (h : c.Reordered c')
    (hclass : ∀ e ∈ g.taskVariables c.task c.units, g.taskClassOf c' e.1 e.2 = g.taskClassOf c e.1 e.2) :
    g.classifyIn c' = g.classifyIn c := by
  have hclasses : g.taskClasses c' = g.taskClasses c := by
    cases h
    refine filterMapM_congr fun e he => ?_
    rw [hclass e he]
  have htask : c'.task = c.task := by
    cases h
    rfl
  rw [classifyIn, classifyIn, hclasses, htask]

/-- The test on first writes gives the same answer in every order of the dependences exactly if it
does not hang on their order. So it is with the class of a variable that no earlier test decides,
and if it is so for all variables of a task, the classes of the task are the same in every order. -/
theorem reordered_agree_iff (g : Graph) (c : TaskContext) :
    (∀ name regions,
      (∀ raw war reverseRaw reverseWar, raw ~ c.raw → war ~ c.war → reverseRaw ~ c.reverseRaw →
        reverseWar ~ c.reverseWar →
        Access.writtenFirst name regions raw war reverseRaw reverseWar c.units =
          Access.writtenFirst name regions c.raw c.war c.reverseRaw c.reverseWar c.units) ↔
        ¬ Access.HangsOnOrder name regions c.raw c.war c.units) ∧
    (∀ v regions, (∀ c', c.Reordered c' → g.taskClassOf c' v regions = g.taskClassOf c v regions) ↔
      (g.IsOpen c v regions → ¬ Access.HangsOnOrder v.name regions c.raw c.war c.units)) ∧
    ∀ task pattern incoming outgoing standalone, g.taskContext task pattern incoming outgoing standalone = .ok c →
      (∀ e ∈ g.taskVariables c.task c.units, g.IsOpen c e.1 e.2 →
        ¬ Access.HangsOnOrder e.1.name e.2 c.raw c.war c.units) →
      ∀ c', c.Reordered c' → g.classifyIn c' = g.classifyTask task pattern incoming outgoing standalone := by
  refine ⟨fun _ _ => Access.writtenFirst_perm_iff, fun _ _ => taskClassOf_reordered_iff,
    fun task pattern incoming outgoing standalone hcontext hsettled c' h => ?_⟩
  have heq : g.classifyTask task pattern incoming outgoing standalone = g.classifyIn c := by
    obtain ⟨left, -, hrest⟩ := bind_eq_ok_iff.1 hcontext
    obtain ⟨right, -, hmade⟩ := bind_eq_ok_iff.1 hrest
    rw [classifyTask, hcontext]
    rfl
  rw [heq]
  exact classifyIn_reordered h fun e he => taskClassOf_reordered_iff.2 (hsettled e he) c' h

end Graph

open ParallelPatterns.Graph

/-! ## A value that is read twice -/

/-- The task reads `x`, overwrites it, writes it once more and reads it again. -/
def rereadTask : Node := summingUnit "1:2" 2 3 [definedAt "x" 1 2]

/-- A dependence of the task on itself. -/
def rereadEdge (key : Nat) (kind : DependenceKind) (source sink : LineId) : Edge :=
  ⟨"1:2", "1:2", key, summingDependence kind "x" "m" source sink⟩

/-- The values that are read at the end; the first one overwrites what the task has read. -/
def rereadValues : List Edge := [rereadEdge 0 .readAfterWrite "1:4" "1:6", rereadEdge 1 .readAfterWrite "1:5" "1:6"]

/-- The write that overwrites what the task has read. -/
def rereadWrites : List Edge := [rereadEdge 2 .writeAfterRead "1:3" "1:4"]

def rereadGraph : Graph where
  nodes := ⟨[
    ("1:0",
      { id := "1:0", file := 1, number := 0, startLine := 1, endLine := 7, name := none,
        body := .function {} }),
    ("1:1", summingUnit "1:1" 1 2 [definedAt "x" 1 2]),
    ("1:2", rereadTask)]⟩
  links := [⟨"1:0", "1:1", [(0, { edge := .child })]⟩, ⟨"1:0", "1:2", [(0, { edge := .child })]⟩,
    ⟨"1:1", "1:1", [(0, summingDependence .initial "x" "m" "1:2" "1:2")]⟩,
    ⟨"1:2", "1:2", (rereadValues ++ rereadWrites).map fun e => (e.key, e.dep)⟩]

/-- The surroundings of the task, with the values that are read at the end in some order. -/
def rereadContext (values : List Edge) : TaskContext where
  task := rereadTask
  pattern := ""
  incoming := []
  outgoing := []
  standalone := false
  left := [summingUnit "1:1" 1 2 [definedAt "x" 1 2]]
  right := []
  units := [rereadTask]
  raw := values
  war := rereadWrites
  waw := []
  reverseRaw := values
  reverseWar := rereadWrites
  loopLines := []
  loopChildren := []

/-- In one order `x` counts as written first and is shared; in the other one it does not, and has no
class. -/
theorem not_reordered_agree_rereadGraph :
    rereadGraph.taskContext rereadTask "" [] [] false = .ok (rereadContext rereadValues) ∧
      (rereadContext rereadValues).Reordered (rereadContext rereadValues.reverse) ∧
      Access.writtenFirst (some "x") ["m"] rereadValues rereadWrites [] [] [rereadTask] = .ok true ∧
      Access.writtenFirst (some "x") ["m"] rereadValues.reverse rereadWrites [] [] [rereadTask] = .ok false ∧
      rereadGraph.classifyTask rereadTask "" [] [] false = .ok { shared := [definedAt "x" 1 2] } ∧
      rereadGraph.classifyIn (rereadContext rereadValues.reverse) = .ok {} :=
  ⟨rfl, .intro (reverse_perm _) (.refl _) (.refl _) (reverse_perm _) (.refl _), rfl, rfl,
    by with_unfolding_all rfl, by with_unfolding_all rfl⟩

end ParallelPatterns
