import ParallelPatterns.Proofs.FirstWrites
import ParallelPatterns.Proofs.LoopClasses

/-!
# The classes of the variables of a task

A variable of a task that is no loop index is private only if its memory takes no value into the
task, out of it or from one of its units to another. The classes are found for memory regions and
then given to the variables that are known before the task: each variable of the task has one class,
but a known variable has as many classes as the variables of the task with which it has memory in
common.
-/

namespace ParallelPatterns

open List

variable {k : TaskClass} {classified : List (Variable × List Region × TaskClass)}

namespace Graph

variable {g : Graph} {task : Node} {pattern : String} {incoming outgoing : List Edge} {standalone : Bool}
  {c : TaskContext} {v : Variable} {regions : List Region}

theorem taskContext_fields (h : g.taskContext task pattern incoming outgoing standalone = .ok c) :
    c.task = task ∧ c.units = g.subtreeUnits task ∧ c.standalone = standalone := by
  obtain ⟨left, -, h⟩ := bind_eq_ok_iff.1 h
  obtain ⟨right, -, h⟩ := bind_eq_ok_iff.1 h
  cases h
  exact ⟨rfl, rfl, rfl⟩

/-! ## Private variables of a task -/

def CarriesValue (g : Graph) (task : Node) (regions : List Region) : Prop :=
  ∃ u ∈ g.subtreeUnits task, ∃ e,
    (e ∈ g.outDataOf u.id .readAfterWrite ∨ e ∈ g.inDataOf u.id .readAfterWrite) ∧ OnRegions regions e

/-- A value of the regions that was read is overwritten: by a unit of the task, if it was read in
the task or to the right of it, or by any unit, if it was read in the task. -/
def ReplacesRead (g : Graph) (task : Node) (right : List Node) (regions : List Region) : Prop :=
  ∃ u ∈ g.subtreeUnits task, ∃ e, OnRegions regions e ∧
    ((e ∈ g.outDataOf u.id .writeAfterRead ∧ ∃ n ∈ g.subtreeUnits task ++ right, n.id = e.target) ∨
      e ∈ g.inDataOf u.id .writeAfterRead)

/-- Is one of the regions read in the nodes, as far as the dependences of the task tell? -/
def reads (c : TaskContext) (regions : List Region) (nodes : List Node) : Bool :=
  Access.readIn regions c.raw c.war c.reverseRaw c.reverseWar nodes

variable (hcontext : g.taskContext task pattern incoming outgoing standalone = .ok c)
include hcontext

theorem reads_eq_false_iff {nodes : List Node} :
    reads c regions nodes = false ↔
      (∀ u ∈ g.subtreeUnits task, ∀ e ∈ g.outDataOf u.id .readAfterWrite, ¬ OnRegions regions e) ∧
      (∀ u ∈ g.subtreeUnits task, ∀ e ∈ g.outDataOf u.id .writeAfterRead, OnRegions regions e →
        ¬ ∃ n ∈ nodes, n.id = e.target) ∧
      (∀ u ∈ g.subtreeUnits task, ∀ e ∈ g.inDataOf u.id .readAfterWrite, OnRegions regions e →
        ¬ ∃ n ∈ nodes, n.id = e.target) ∧
      ∀ u ∈ g.subtreeUnits task, ∀ e ∈ g.inDataOf u.id .writeAfterRead, ¬ OnRegions regions e := by
  obtain ⟨left, -, h⟩ := bind_eq_ok_iff.1 hcontext
  obtain ⟨right, -, h⟩ := bind_eq_ok_iff.1 h
  cases h
  simp only [reads, Access.readIn, Bool.or_eq_false_iff, any_eq_false, mem_flatMap,
    Bool.and_eq_true, concerns_iff, holds_iff, not_and, and_assoc, forall_exists_index, and_imp]
  refine and_congr ?_ (and_congr ?_ (and_congr ?_ ?_))
  all_goals exact ⟨fun h u hu e he => h e u hu he, fun h e u hu he => h u hu e he⟩

theorem unread_iff :
    (reads c regions c.right = false ∧ reads c regions c.units = false) ↔
      ¬ g.CarriesValue task regions ∧ ¬ g.ReplacesRead task c.right regions := by
  rw [(taskContext_fields hcontext).2.1]
  constructor
  · rw [reads_eq_false_iff hcontext, reads_eq_false_iff hcontext]
    rintro ⟨⟨hraw, hright, -, hreverseWar⟩, -, hunits, hreverseRaw, -⟩
    constructor
    · rintro ⟨u, hu, e, he | he, hregions⟩
      · exact hraw u hu e he hregions
      · -- what is read was written by the unit itself
        exact hreverseRaw u hu e he hregions ⟨u, hu,
          (mem_inEdges_iff.1 (mem_filter.1 (mem_filter.1 he).1).1).1.symm⟩
    · rintro ⟨u, hu, e, hregions, ⟨he, n, hn, htarget⟩ | he⟩
      · rcases mem_append.1 hn with hn | hn
        · exact hunits u hu e he hregions ⟨n, hn, htarget⟩
        · exact hright u hu e he hregions ⟨n, hn, htarget⟩
      · exact hreverseWar u hu e he hregions
  · rintro ⟨hcarries, hreplaces⟩
    have hunread : ∀ nodes ⊆ g.subtreeUnits task ++ c.right, reads c regions nodes = false := by
      intro nodes hnodes
      rw [reads_eq_false_iff hcontext]
      refine ⟨fun u hu e he hregions => hcarries ⟨u, hu, e, .inl he, hregions⟩, ?_,
        fun u hu e he hregions => absurd ⟨u, hu, e, .inr he, hregions⟩ hcarries,
        fun u hu e he hregions => hreplaces ⟨u, hu, e, hregions, .inr he⟩⟩
      rintro u hu e he hregions ⟨n, hn, htarget⟩
      exact hreplaces ⟨u, hu, e, hregions, .inl ⟨he, n, hnodes hn, htarget⟩⟩
    exact ⟨hunread _ (subset_append_right _ _), hunread _ (subset_append_left _ _)⟩

end Graph

theorem Access.writtenFirst_of_unconcerned {name : Option String} {regions : List Region}
    {raw war reverseRaw reverseWar : List Edge} {tree : List Node} {first : Bool}
    (hraw : raw.any (concerns regions) = false)
    (h : writtenFirst name regions raw war reverseRaw reverseWar tree = .ok first) :
    first ↔ name ≠ none ∧ readIn regions raw war reverseRaw reverseWar tree = false := by
  have hnone : ∀ e ∈ raw, readsWithin regions tree e = false := fun e he => by
    simp [readsWithin, any_eq_false.1 hraw e he]
  by_cases hname : name = none
  · rw [hname] at h
    cases h
    simp [hname]
  · cases hnamed : raw.all isNamed with
    | false =>
      obtain ⟨e, he, hunnamed⟩ := all_eq_false.1 hnamed
      rw [writtenFirst_eq_error hname ⟨e, he, fun _ => if_neg hunnamed⟩] at h
      cases h
    | true =>
      rw [writtenFirst_of_unread hname hnamed hnone] at h
      cases h
      simp [hname]

namespace Graph

variable {g : Graph} {task : Node} {pattern : String} {incoming outgoing : List Edge} {standalone : Bool}
  {c : TaskContext} {v : Variable} {regions : List Region} {kind : Option TaskClass}

/-- A variable that the tests before leave open is private exactly if nothing is read of it in the
task nor to the right of it, it has a name and is a single value, and, where tasks are looked for on
their own, the task reads nothing that was written before. -/
theorem writtenClass_eq_privates_iff (h : g.writtenClass c v regions = .ok kind) :
    kind = some .privates ↔
      (reads c regions c.right = false ∧ reads c regions c.units = false) ∧ v.name ≠ none ∧
        Access.isScalar v = .ok true ∧ (c.standalone → g.writtenBefore c.task = false) := by
  obtain ⟨first, hfirst, h⟩ := bind_eq_ok_iff.1 h
  -- where nothing is read to the right, no dependence reads one of the regions
  have hunread : reads c regions c.right = false →
      (first ↔ v.name ≠ none ∧ reads c regions c.units = false) := fun hright => by
    rw [reads, Access.readIn, Bool.or_eq_false_iff, Bool.or_eq_false_iff, Bool.or_eq_false_iff] at hright
    exact Access.writtenFirst_of_unconcerned hright.1.1.1 hfirst
  cases first with
  | false =>
    cases h
    refine iff_of_false (by simp) fun hall => ?_
    exact Bool.false_ne_true ((hunread hall.1.1).2 ⟨hall.2.1, hall.1.2⟩)
  | true =>
    obtain ⟨scalar, hscalar, h⟩ := bind_eq_ok_iff.1 h
    have hopen : (scalar && (!c.standalone || !g.writtenBefore c.task)) ↔
        Access.isScalar v = .ok true ∧ (c.standalone → g.writtenBefore c.task = false) := by
      rw [hscalar]
      cases scalar <;> cases c.standalone <;> simp
    rw [← hopen]
    split at h
    · next hprivate =>
      cases h
      cases hright : reads c regions c.right with
      | true =>
        rw [reads] at hright
        simp [hright]
      | false =>
        have hfirst := (hunread hright).1 rfl
        rw [reads] at hright
        simp [hright, hprivate, hfirst]
    · next hshared =>
      cases h
      simp [hshared]

theorem boundClass_ne_privates (h : g.boundClass c v regions = .ok kind) : kind ≠ some .privates := by
  unfold boundClass at h
  split at h
  · cases h
    simp
  · split at h
    · cases h
      simp
    · split at h
      · cases h
        simp
      · obtain ⟨outside, -, h⟩ := bind_eq_ok_iff.1 h
        split at h
        · cases h
          split <;> simp
        · cases h
          simp

theorem taskClassOf_eq_privates_iff (hindex : g.isTaskIndex c regions = false)
    (h : g.taskClassOf c v regions = .ok kind) :
    kind = some .privates ↔
      (reads c regions c.right = false ∧ reads c regions c.units = false) ∧
        g.isCombined c v = .ok false ∧ g.boundClass c v regions = .ok none ∧ v.name ≠ none ∧
        Access.isScalar v = .ok true ∧ (c.standalone → g.writtenBefore c.task = false) := by
  unfold taskClassOf at h
  rw [if_neg (by simp [hindex])] at h
  obtain ⟨combined, hcombined, h⟩ := bind_eq_ok_iff.1 h
  cases combined with
  | true =>
    cases h
    simp [hcombined]
  | false =>
    obtain ⟨bound, hbound, h⟩ := bind_eq_ok_iff.1 h
    cases bound with
    | some k =>
      cases h
      simp [hbound, boundClass_ne_privates hbound]
    | none =>
      rw [writtenClass_eq_privates_iff h]
      simp [hcombined, hbound]

theorem mem_taskClasses_iff (h : g.taskClasses c = .ok classified) :
    (v, regions, k) ∈ classified ↔
      (v, regions) ∈ g.taskVariables c.task c.units ∧ g.taskClassOf c v regions = .ok (some k) := by
  rw [(filterMapM_eq_ok h).2]
  constructor
  · rintro ⟨e, he, hclass⟩
    obtain ⟨kind, hkind, hclass⟩ := bind_eq_ok_iff.1 hclass
    obtain ⟨k', rfl, hk'⟩ := Option.map_eq_some_iff.1 (Except.ok.inj hclass)
    cases hk'
    exact ⟨he, hkind⟩
  · rintro ⟨he, hclass⟩
    refine ⟨(v, regions), he, ?_⟩
    rw [hclass]
    rfl

/-- A variable of a task that is no loop index is private, before the classes are given to the known
variables, exactly if no unit of the task reads or has written a value of its memory that is read,
none that was read is replaced, no test before finds a class for it, it has a name and is a single
value, and, where tasks are looked for on their own, the task reads nothing that was written
before. -/
theorem privates_mem_taskClasses_iff {classified : List (Variable × List Region × TaskClass)}
    (hcontext : g.taskContext task pattern incoming outgoing standalone = .ok c)
    (hclasses : g.taskClasses c = .ok classified) (hindex : g.isTaskIndex c regions = false) :
    (v, regions, TaskClass.privates) ∈ classified ↔
      (v, regions) ∈ g.taskVariables task (g.subtreeUnits task) ∧
      (∀ u ∈ g.subtreeUnits task, ∀ e,
        e ∈ g.outDataOf u.id .readAfterWrite ∨ e ∈ g.inDataOf u.id .readAfterWrite → ¬ OnRegions regions e) ∧
      ¬ g.ReplacesRead task c.right regions ∧ g.isCombined c v = .ok false ∧ g.boundClass c v regions = .ok none ∧
      v.name ≠ none ∧ Access.isScalar v = .ok true ∧ (standalone = true → g.writtenBefore task = false) := by
  obtain ⟨htask, hunits, hstandalone⟩ := taskContext_fields hcontext
  have hcarries : (∀ u ∈ g.subtreeUnits task, ∀ e,
      e ∈ g.outDataOf u.id .readAfterWrite ∨ e ∈ g.inDataOf u.id .readAfterWrite → ¬ OnRegions regions e) ↔
        ¬ g.CarriesValue task regions := by
    simp only [CarriesValue, not_exists, not_and]
  rw [mem_taskClasses_iff hclasses, htask, hunits, hcarries,
    ← and_assoc (a := ¬ g.CarriesValue task regions), ← unread_iff hcontext]
  refine and_congr_right fun hmem => ?_
  rw [← hunits, ← htask] at hmem
  obtain ⟨o, ho⟩ := (filterMapM_eq_ok hclasses).1 (v, regions) hmem
  obtain ⟨kind, hkind, -⟩ := bind_eq_ok_iff.1 ho
  have hprivate := taskClassOf_eq_privates_iff hindex hkind
  rw [htask, hstandalone] at hprivate
  rw [hkind, Except.ok.injEq, hprivate]

end Graph

open ParallelPatterns.Graph

/-! ### A task that stores a value -/

/-- The unit that is a task. -/
def storingTask : Node := summingUnit "1:2" 2 4 [definedAt "a" 1 2, definedAt "b" 1 4]

/-- The task reads `a`, which was written before. -/
def storingRead : Edge := ⟨"1:2", "1:1", 0, summingDependence .readAfterWrite "a" "m1" "1:2" "1:4"⟩

/-- The task writes `b` twice. -/
def storingWrite : Edge := ⟨"1:2", "1:2", 1, summingDependence .writeAfterWrite "b" "m2" "1:4" "1:4"⟩

/-- The pointer `p` has pointed to two regions. The task reads `a`, which lies in the first one, and
writes `b`, which lies in the second one. -/
def twoTargetGraph : Graph where
  nodes := ⟨[
    ("1:0",
      { id := "1:0", file := 1, number := 0, startLine := 1, endLine := 7, name := none,
        body := .function {} }),
    ("1:1", summingUnit "1:1" 1 2 [definedAt "p" 1 2]),
    ("1:2", storingTask)]⟩
  links := [⟨"1:0", "1:1", [(0, { edge := .child })]⟩, ⟨"1:0", "1:2", [(0, { edge := .child })]⟩,
    ⟨"1:1", "1:1", [(0, summingDependence .initial "p" "m1" "1:2" "1:2"),
      (1, summingDependence .initial "p" "m2" "1:2" "1:2")]⟩,
    ⟨"1:2", "1:1", [(0, storingRead.dep)]⟩,
    ⟨"1:2", "1:2", [(0, summingDependence .initial "b" "m2" "1:4" "1:4"), (1, storingWrite.dep)]⟩]

/-- The surroundings of the task. -/
def storingContext : TaskContext where
  task := storingTask
  pattern := ""
  incoming := []
  outgoing := []
  standalone := false
  left := [summingUnit "1:1" 1 2 [definedAt "p" 1 2]]
  right := []
  units := [storingTask]
  raw := [storingRead]
  war := []
  waw := [storingWrite]
  reverseRaw := []
  reverseWar := []
  loopLines := []
  loopChildren := []

/-- The task has a value of `a` and a place for `b`. -/
def storingClasses : List (Variable × List Region × TaskClass) :=
  [(definedAt "a" 1 2, ["m1"], .firstPrivate), (definedAt "b" 1 4, ["m2"], .privates)]

theorem taskContext_twoTargetGraph : twoTargetGraph.taskContext storingTask "" [] [] false =
    .ok storingContext := rfl

theorem taskClasses_twoTargetGraph : twoTargetGraph.taskClasses storingContext = .ok storingClasses := rfl

/-- The variable that the task only writes is private, and no value of it goes from unit to unit. -/
theorem privates_mem_taskClasses_twoTargetGraph :
    twoTargetGraph.taskContext storingTask "" [] [] false = .ok storingContext ∧
      twoTargetGraph.taskClasses storingContext = .ok storingClasses ∧
      twoTargetGraph.isTaskIndex storingContext ["m2"] = false ∧
      (definedAt "b" 1 4, ["m2"], TaskClass.privates) ∈ storingClasses ∧
      ∀ u ∈ twoTargetGraph.subtreeUnits storingTask, ∀ e,
        e ∈ twoTargetGraph.outDataOf u.id .readAfterWrite ∨
          e ∈ twoTargetGraph.inDataOf u.id .readAfterWrite → ¬ OnRegions ["m2"] e := by
  have hmem : (definedAt "b" 1 4, ["m2"], TaskClass.privates) ∈ storingClasses :=
    mem_cons_of_mem _ mem_cons_self
  have hquiet := (privates_mem_taskClasses_iff taskContext_twoTargetGraph taskClasses_twoTargetGraph rfl).1 hmem
  exact ⟨taskContext_twoTargetGraph, taskClasses_twoTargetGraph, rfl, hmem, hquiet.2.1⟩

namespace Graph

variable {g : Graph} {c : TaskContext} {v : Variable}

/-! ## The variables that are known before a task -/

theorem nodup_names_variablesOf (g : Graph) (nodes : List Node) :
    ((g.variablesOf nodes).map fun e => e.1.name).Nodup := by
  have hfirst := nodup_map_name_firstNamed (nodes.flatMap Node.ownVariables)
  rwa [← map_fst_variablesOf, map_map] at hfirst

theorem nodup_names_taskVariables (g : Graph) (task : Node) (units : List Node) :
    ((g.taskVariables task units).map fun e => e.1.name).Nodup := by
  unfold taskVariables
  split
  · exact (g.nodup_names_variablesOf units).sublist (filter_sublist.map _)
  · exact g.nodup_names_variablesOf units

theorem eq_of_mem_taskClasses
    (h : g.taskClasses c = .ok classified) {e e' : Variable × List Region × TaskClass}
    (he : e ∈ classified) (he' : e' ∈ classified) (hname : e.1.name = e'.1.name) : e = e' := by
  obtain ⟨v', regions', k'⟩ := e'
  obtain ⟨hmem, hclass⟩ := (mem_taskClasses_iff h).1 he
  obtain ⟨hmem', hclass'⟩ := (mem_taskClasses_iff h).1 he'
  cases inj_on_of_nodup_map (g.nodup_names_taskVariables c.task c.units) hmem hmem' hname
  rw [hclass] at hclass'
  cases hclass'
  rfl

/-- Two lists of regions have one in common. -/
def SharesMemory (regions regions' : List Region) : Prop := ∃ r ∈ regions, r ∈ regions'

theorem mem_of_knownNames {known : VariableRegions} {vs : List Variable}
    (h : knownNames known classified k = .ok vs) :
    v ∈ vs ↔ ∃ w ∈ known, w.1 = v ∧ ∃ e ∈ classified, e.2.2 = k ∧ SharesMemory w.2 e.2.1 := by
  rw [(sortVariables_perm h).mem_iff]
  simp only [mem_map, mem_filter, any_eq_true, contains_iff_mem, mem_flatMap, beq_iff_eq]
  constructor
  · rintro ⟨w, ⟨hw, r, hr, e, ⟨he, hk⟩, hregion⟩, rfl⟩
    exact ⟨w, hw, rfl, e, he, hk, r, hr, hregion⟩
  · rintro ⟨w, hw, rfl, e, he, hk, r, hr, hregion⟩
    exact ⟨w, ⟨hw, r, hr, e, ⟨he, hk⟩, hregion⟩, rfl⟩

end Graph

namespace TaskClass

/-- The variables of the class stand in a data sharing clause. -/
def IsSharing (k : TaskClass) : Prop := k = .firstPrivate ∨ k = .privates ∨ k = .shared

theorem IsSharing.ne_reduction (h : k.IsSharing) : k ≠ .reduction := by
  rcases h with rfl | rfl | rfl <;> decide

end TaskClass

namespace TaskVariables

/-- The variables of a class; those that are combined are given by their names only. -/
def of (t : TaskVariables) : TaskClass → List Variable
  | .firstPrivate => t.firstPrivate
  | .privates => t.privates
  | .shared => t.shared
  | .dependIn => t.dependIn
  | .dependOut => t.dependOut
  | .dependInOut => t.dependInOut
  | .reduction => []

/-- No name stands in two of the data sharing clauses. -/
def OneClauseEach (t : TaskVariables) : Prop :=
  ∀ k k' : TaskClass, k.IsSharing → k'.IsSharing → k ≠ k' → ∀ v ∈ t.of k, ∀ w ∈ t.of k', v.name ≠ w.name

end TaskVariables

namespace Graph

variable {g : Graph} {task : Node} {pattern : String} {incoming outgoing : List Edge} {standalone : Bool}
  {classes : TaskVariables}

theorem classifyTask_eq_ok (h : g.classifyTask task pattern incoming outgoing standalone = .ok classes) :
    ∃ c classified before, g.taskContext task pattern incoming outgoing standalone = .ok c ∧
      g.taskClasses c = .ok classified ∧ g.beside task false true = .ok before ∧
      ∀ k : TaskClass, k ≠ .reduction → knownNames (g.variablesOf before) classified k = .ok (classes.of k) := by
  obtain ⟨c, hcontext, h⟩ := bind_eq_ok_iff.1 h
  obtain ⟨classified, hclasses, h⟩ := bind_eq_ok_iff.1 h
  obtain ⟨before, hbefore, h⟩ := bind_eq_ok_iff.1 h
  refine ⟨c, classified, before, hcontext, hclasses, (taskContext_fields hcontext).1 ▸ hbefore, ?_⟩
  dsimp only at h
  split at h
  · cases h
  · obtain ⟨firstPrivate, hfirst, h⟩ := bind_eq_ok_iff.1 h
    obtain ⟨privates, hprivates, h⟩ := bind_eq_ok_iff.1 h
    obtain ⟨shared, hshared, h⟩ := bind_eq_ok_iff.1 h
    obtain ⟨dependIn, hin, h⟩ := bind_eq_ok_iff.1 h
    obtain ⟨dependOut, hout, h⟩ := bind_eq_ok_iff.1 h
    obtain ⟨dependInOut, hboth, h⟩ := bind_eq_ok_iff.1 h
    cases h
    intro k hk
    cases k with
    | firstPrivate => exact hfirst
    | privates => exact hprivates
    | shared => exact hshared
    | dependIn => exact hin
    | dependOut => exact hout
    | dependInOut => exact hboth
    | reduction => exact absurd rfl hk

/-- Each variable of a task has one class. The data sharing clauses of the task have no name in
common exactly if no variable that is known before the task has memory in common with variables of
the task in different clauses. -/
theorem classifyTask_oneClauseEach_iff
    (hrun : g.classifyTask task pattern incoming outgoing standalone = .ok classes) :
    ∃ c classified before, g.taskContext task pattern incoming outgoing standalone = .ok c ∧
      g.taskClasses c = .ok classified ∧ g.beside task false true = .ok before ∧
      (∀ e ∈ classified, ∀ e' ∈ classified, e.1.name = e'.1.name → e = e') ∧
      (classes.OneClauseEach ↔
        ∀ w ∈ g.variablesOf before, ∀ e ∈ classified, ∀ e' ∈ classified, e.2.2.IsSharing → e'.2.2.IsSharing →
          SharesMemory w.2 e.2.1 → SharesMemory w.2 e'.2.1 → e.2.2 = e'.2.2) := by
  obtain ⟨c, classified, before, hcontext, hclasses, hbefore, hnames⟩ := classifyTask_eq_ok hrun
  refine ⟨c, classified, before, hcontext, hclasses, hbefore,
    fun e he e' he' => eq_of_mem_taskClasses hclasses he he', ?_⟩
  have hmem : ∀ {k : TaskClass} {v : Variable}, k.IsSharing → (v ∈ classes.of k ↔
      ∃ w ∈ g.variablesOf before, w.1 = v ∧ ∃ e ∈ classified, e.2.2 = k ∧ SharesMemory w.2 e.2.1) :=
    fun hk => mem_of_knownNames (hnames _ hk.ne_reduction)
  constructor
  · intro hdisjoint w hw e he e' he' hk hk' hshares hshares'
    by_contra hne
    have hv := (hmem hk).2 ⟨w, hw, rfl, e, he, rfl, hshares⟩
    have hv' := (hmem hk').2 ⟨w, hw, rfl, e', he', rfl, hshares'⟩
    exact hdisjoint e.2.2 e'.2.2 hk hk' hne w.1 hv w.1 hv' rfl
  · intro honly k k' hk hk' hne v hv v' hv' hname
    obtain ⟨w, hw, rfl, e, he, rfl, hshares⟩ := (hmem hk).1 hv
    obtain ⟨w', hw', rfl, e', he', rfl, hshares'⟩ := (hmem hk').1 hv'
    -- the known variables have different names, so it is one of them
    obtain rfl := inj_on_of_nodup_map (g.nodup_names_variablesOf before) hw hw' hname
    exact hne (honly w hw e he e' he' hk hk' hshares hshares')

end Graph

/-! ### A pointer with two targets -/

/-- The pointer comes into two clauses. -/
def storingVariables : TaskVariables where
  firstPrivate := [definedAt "p" 1 2]
  privates := [definedAt "p" 1 2]

theorem classifyTask_twoTargetGraph : twoTargetGraph.classifyTask storingTask "" [] [] false =
    .ok storingVariables := by
  with_unfolding_all rfl

/-- In the task itself, each variable has one class. -/
theorem classifyTask_oneClauseEach_iff_twoTargetGraph :
    twoTargetGraph.classifyTask storingTask "" [] [] false = .ok storingVariables ∧
      ∃ c classified, twoTargetGraph.taskContext storingTask "" [] [] false = .ok c ∧
        twoTargetGraph.taskClasses c = .ok classified ∧
        ∀ e ∈ classified, ∀ e' ∈ classified, e.1.name = e'.1.name → e = e' := by
  obtain ⟨c, classified, -, hcontext, hclasses, -, hone, -⟩ :=
    classifyTask_oneClauseEach_iff classifyTask_twoTargetGraph
  exact ⟨classifyTask_twoTargetGraph, c, classified, hcontext, hclasses, hone⟩

/-- The pointer is private to the task with and without a value. -/
theorem not_oneClauseEach_twoTargetGraph :
    twoTargetGraph.classifyTask storingTask "" [] [] false = .ok storingVariables ∧
      ¬ storingVariables.OneClauseEach := by
  refine ⟨classifyTask_twoTargetGraph, fun h => ?_⟩
  exact h .firstPrivate .privates (.inl rfl) (.inr (.inl rfl)) (by decide) _ mem_cons_self _ mem_cons_self rfl

end ParallelPatterns
