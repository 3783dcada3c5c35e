import ParallelPatterns.Proofs.Operators
import ParallelPatterns.Proofs.OutsideVariables

/-!
# The classes of the variables of a loop

The variables of a loop are sorted into classes one after another. Each variable from outside of the
loop comes into one class at most, and it comes into one exactly if one of the tests holds that are
made on it. So the classes are disjoint parts of the variables from outside, each in the order of
names.
-/

namespace ParallelPatterns

open List Access

variable {vs sorted : List Variable} {c : LoopContext}

/-! ## Sorted variables -/

section

variable (h : sortVariables vs = .ok sorted)
include h

theorem named_of_sortVariables (hlong : 2 ≤ vs.length) :
    ∀ v ∈ vs, ∃ name, v.name = some name := by
  intro v hv
  rw [sortVariables] at h
  split at h
  · cases h
  · next hnamed =>
    refine Option.ne_none_iff_exists'.1 fun hnone => hnamed ?_
    rw [Bool.and_eq_true, decide_eq_true_iff, any_eq_true]
    exact ⟨hlong, v, hv, by rw [hnone]; rfl⟩

theorem pairwise_le_of_sortVariables :
    sorted.Pairwise fun v w => v.name.getD "" ≤ w.name.getD "" := by
  rw [sortVariables] at h
  split at h
  · cases h
  · cases h
    have hsorted : (vs.mergeSort fun v w => v.name.getD "" ≤ w.name.getD "").Pairwise fun v w =>
        decide (v.name.getD "" ≤ w.name.getD "") := by
      refine pairwise_mergeSort (fun u v w => ?_) (fun v w => ?_) vs
      · simpa only [decide_eq_true_iff] using le_trans
      · simpa only [Bool.or_eq_true, decide_eq_true_iff] using le_total _ _
    simpa only [decide_eq_true_iff] using hsorted

theorem pairwise_of_sortVariables
    (hnames : (vs.map (·.name)).Nodup) : sorted.Pairwise fun v w => v.name < w.name := by
  have hperm := sortVariables_perm h
  have hdistinct : sorted.Pairwise fun v w => v.name ≠ w.name := by
    rw [← pairwise_map]
    exact (hperm.map Variable.name).nodup_iff.2 hnames
  by_cases hlong : 2 ≤ vs.length
  · have hnamed := named_of_sortVariables h hlong
    refine ((pairwise_le_of_sortVariables h).and hdistinct).imp_of_mem ?_
    rintro v w hv hw ⟨hle, hne⟩
    obtain ⟨a, ha⟩ := hnamed v (hperm.mem_iff.1 hv)
    obtain ⟨b, hb⟩ := hnamed w (hperm.mem_iff.1 hw)
    rw [ha, hb] at hle hne ⊢
    exact lt_of_le_of_ne hle fun heq => hne (congrArg some heq)
  · rw [← hperm.length_eq] at hlong
    rcases sorted with _ | ⟨v, _ | ⟨w, rest⟩⟩
    · exact Pairwise.nil
    · exact pairwise_singleton _ v
    · exact absurd (by simp) hlong

end

/-! ## One turn for each variable -/

namespace LoopVariables

theorem of_add (c : LoopVariables) (v : Variable) (k k' : LoopClass) :
    (c.add v k).of k' = c.of k' ++ if k = k' then [v] else [] := by
  cases k <;> cases k' <;> simp [add, of]

end LoopVariables

variable {e : Variable × List Region} {acc acc' : LoopVariables} {g₁ g₂ : Graph} {vars outside : VariableRegions}

namespace Graph

def hasClass (g : Graph) (c : LoopContext) (k : LoopClass) (e : Variable × List Region) : Bool :=
  match g.classOf c e.1 e.2 with
  | .ok kind => kind == some k
  | .error _ => false

theorem hasClass_iff {g : Graph} {k : LoopClass} :
    g.hasClass c k e ↔ g.classOf c e.1 e.2 = .ok (some k) := by
  unfold hasClass
  split <;> next hclass => simp [hclass]

end Graph

open ParallelPatterns.Graph

variable {g : Graph} {loop : Node}

theorem of_classifyTurn (h : (classifyTurn g c acc e).runOn g₁ = (.ok acc', g₂)) :
    (∃ kind, g.classOf c e.1 e.2 = .ok kind) ∧
      ∀ k, acc'.of k = acc.of k ++ ([e].filter (g.hasClass c k)).map (·.1) := by
  obtain ⟨kind, hclass, h⟩ := Analysis.runOn_lift_bind_eq_ok h
  refine ⟨⟨kind, hclass⟩, fun k => ?_⟩
  have hfilter : ([e].filter (g.hasClass c k)).map (·.1) = if kind = some k then [e.1] else [] := by
    simp only [filter_cons, hasClass, hclass, beq_iff_eq]
    split <;> rfl
  rw [hfilter]
  cases kind with
  | none =>
    cases h
    simp
  | some k₁ =>
    have hacc : acc' = acc.add e.1 k₁ := by
      cases k₁ with
      | reduction =>
        obtain ⟨sign, _, -, h⟩ := Analysis.runOn_bind_eq_ok h
        cases h
        rfl
      | _ => cases h; rfl
    simp only [hacc, LoopVariables.of_add, Option.some.injEq]

theorem of_classifyTurns (h : (vars.foldlM (classifyTurn g c) acc).runOn g₁ = (.ok acc', g₂)) :
    (∀ e ∈ vars, ∃ kind, g.classOf c e.1 e.2 = .ok kind) ∧
      ∀ k, acc'.of k = acc.of k ++ (vars.filter (g.hasClass c k)).map (·.1) := by
  refine Analysis.foldlM_runOn_induction (M := fun vars acc _ acc' _ =>
    (∀ e ∈ vars, ∃ kind, g.classOf c e.1 e.2 = .ok kind) ∧
      ∀ k, acc'.of k = acc.of k ++ (vars.filter (g.hasClass c k)).map (·.1)) ?_ ?_ h
  · exact fun acc _ => ⟨by simp, by simp⟩
  · rintro e vars acc g₁ acc₁ g₂ acc' g₃ hturn ⟨hall, hrest⟩
    obtain ⟨hfirst, hacc⟩ := of_classifyTurn hturn
    refine ⟨forall_mem_cons.2 ⟨hfirst, hall⟩, fun k => ?_⟩
    rw [hrest, hacc, append_assoc, ← map_append, ← filter_append, singleton_append]

variable {classes : LoopVariables}

theorem classifyLoop_classes {g' : Graph} (h : (classifyLoop loop).runOn g = (.ok classes, g')) :
    ∃ c vars, g.loopContext loop = .ok c ∧ g.classifiedVariables c = .ok vars ∧
      (∀ e ∈ vars, ∃ kind, g.classOf c e.1 e.2 = .ok kind) ∧
      ∀ k, sortVariables ((vars.filter (g.hasClass c k)).map (·.1)) = .ok (classes.of k) := by
  obtain ⟨c, vars, unsorted, hcontext, hvars, hfold, hsorted⟩ := classifyLoop_eq_ok h
  obtain ⟨hall, hclasses⟩ := of_classifyTurns hfold
  refine ⟨c, vars, hcontext, hvars, hall, fun k => ?_⟩
  have hunsorted : (vars.filter (g.hasClass c k)).map (·.1) = unsorted.of k := by
    rw [hclasses k]
    cases k <;> rfl
  rw [hunsorted]
  exact LoopVariables.of_sorted hsorted k

/-! ## The tests on a variable -/

namespace Graph

variable {regions : List Region} {left right : List Node} {v : Variable} {g : Graph} {loop : Node}

/-- The variable of the name is the index of a loop at or below the loop: a unit reads, on the line
of such a loop, what a unit wrote on that line. -/
def IndexBelow (g : Graph) (loop : Node) (name : Option String) : Prop :=
  ∃ u ∈ g.subtreeUnits loop, ∃ e ∈ g.outDataOf u.id .readAfterWrite, e.dep.var = name ∧
    e.dep.sinkLine = e.dep.sourceLine ∧ (∃ l ∈ g.subtreeLoops loop, e.dep.sourceLine = some l.start) ∧
    ∃ n, g.node? e.target = some n ∧ ∃ w ∈ g.subtreeUnits loop, w.alike n

/-- The dependence is on one of the regions. -/
def OnRegions (regions : List Region) (e : Edge) : Prop := ∃ r ∈ regions, e.dep.region = some r

/-- One of the regions is written in the nodes: a unit below the loop reads or overwrites what was
written there. -/
def WrittenIn (g : Graph) (loop : Node) (nodes : List Node) (regions : List Region) : Prop :=
  ∃ u ∈ g.subtreeUnits loop, ∃ e, (e ∈ g.outDataOf u.id .readAfterWrite ∨ e ∈ g.outDataOf u.id .writeAfterWrite) ∧
    OnRegions regions e ∧ ∃ n ∈ nodes, n.id = e.target

/-- The regions are first written in the loop: where a unit overwrites what a unit has read, the
value that was read had been written. -/
def WrittenFirst (g : Graph) (loop : Node) (regions : List Region) : Prop :=
  ∀ u ∈ g.subtreeUnits loop, ∀ e ∈ g.outDataOf u.id .writeAfterRead, OnRegions regions e →
    (∃ n ∈ g.subtreeUnits loop, n.id = e.target) →
    ∃ w ∈ g.subtreeUnits loop, ∃ r ∈ g.outDataOf w.id .readAfterWrite, OnRegions regions r ∧
      e.dep.sourceLine = r.dep.sinkLine

theorem isLoopIndexBelow_iff {name : Option String} : g.isLoopIndexBelow loop name ↔ g.IndexBelow loop name := by
  simp only [isLoopIndexBelow, isLoopIndex, indexNames, contains_iff_mem, mem_flatMap, mem_filterMap]
  refine exists_congr fun u => and_congr_right fun _ => exists_congr fun e => and_congr_right fun _ => ?_
  have hline : e.dep.sourceLine.any ((g.subtreeLoops loop).map (·.start)).contains ↔
      ∃ l ∈ g.subtreeLoops loop, e.dep.sourceLine = some l.start := by
    cases e.dep.sourceLine with
    | none => simp
    | some line => simp [eq_comm]
  have htarget : (g.node? e.target).any (·.among (g.subtreeUnits loop)) ↔
      ∃ n, g.node? e.target = some n ∧ ∃ w ∈ g.subtreeUnits loop, w.alike n := by
    simp [Option.any_eq_true, Node.among]
  rw [← hline, ← htarget]
  constructor
  · intro h
    split at h
    · next hcond =>
      simp only [Bool.and_eq_true, beq_iff_eq] at hcond
      exact ⟨Option.some.inj h, hcond.1.1, hcond.1.2, hcond.2⟩
    · cases h
  · rintro ⟨rfl, hsame, hheader, hunit⟩
    rw [if_pos]
    simp only [Bool.and_eq_true, beq_iff_eq]
    exact ⟨⟨hsame, hheader⟩, hunit⟩

theorem concerns_iff {e : Edge} : concerns regions e ↔ OnRegions regions e := by
  simp [concerns, OnRegions, Option.any_eq_true, and_comm]

variable {nodes : List Node} {kind : Option LoopClass}

theorem holds_iff {id : NodeId} : holds nodes id ↔ ∃ n ∈ nodes, n.id = id := by
  simp [holds]

theorem writtenIn_iff :
    writtenIn regions (g.accessesOf (g.subtreeUnits loop)).raw (g.accessesOf (g.subtreeUnits loop)).waw nodes ↔
      g.WrittenIn loop nodes regions := by
  simp only [writtenIn, accessesOf, any_eq_true, mem_append, mem_flatMap, Bool.and_eq_true,
    concerns_iff, holds_iff]
  constructor
  · rintro ⟨e, ⟨u, hu, he⟩ | ⟨u, hu, he⟩, hregions, htarget⟩
    · exact ⟨u, hu, e, .inl he, hregions, htarget⟩
    · exact ⟨u, hu, e, .inr he, hregions, htarget⟩
  · rintro ⟨u, hu, e, he | he, hregions, htarget⟩
    · exact ⟨e, .inl ⟨u, hu, he⟩, hregions, htarget⟩
    · exact ⟨e, .inr ⟨u, hu, he⟩, hregions, htarget⟩

theorem firstWritten_iff :
    firstWritten regions (g.accessesOf (g.subtreeUnits loop)).raw (g.accessesOf (g.subtreeUnits loop)).war
        (g.subtreeUnits loop) ↔ g.WrittenFirst loop regions := by
  simp only [firstWritten, accessesOf, all_eq_true, mem_flatMap, Bool.or_eq_true, Bool.not_eq_true',
    ← Bool.not_eq_true, Bool.and_eq_true, concerns_iff, holds_iff, any_eq_true, beq_iff_eq]
  constructor
  · intro h u hu e he hregions htarget
    rcases h e ⟨u, hu, he⟩ with hnot | ⟨r, ⟨w, hw, hr⟩, hread, hline⟩
    · exact absurd ⟨hregions, htarget⟩ hnot
    · exact ⟨w, hw, r, hr, hread, hline⟩
  · rintro h e ⟨u, hu, he⟩
    by_cases hconcerned : OnRegions regions e ∧ ∃ n ∈ g.subtreeUnits loop, n.id = e.target
    · obtain ⟨w, hw, r, hr, hread, hline⟩ := h u hu e he hconcerned.1 hconcerned.2
      exact .inr ⟨r, ⟨w, hw, hr⟩, hread, hline⟩
    · exact .inl hconcerned

/-- The variable is a copy of an argument, and a single value. -/
def ScalarArgument (g : Graph) (loop : Node) (v : Variable) : Prop :=
  g.isArgument v.name loop = .ok true ∧ Access.isScalar v = .ok true

theorem hasValueAt_iff {outside : Bool}
    (h : g.hasValueAt loop v (writtenIn regions (g.accessesOf (g.subtreeUnits loop)).raw
      (g.accessesOf (g.subtreeUnits loop)).waw left) = .ok outside) :
    outside ↔ g.WrittenIn loop left regions ∨ g.ScalarArgument loop v := by
  unfold hasValueAt at h
  rw [← writtenIn_iff, ScalarArgument]
  split at h
  · next hwritten =>
    cases h
    simp [hwritten]
  · next hwritten =>
    obtain ⟨argument, hargument, h⟩ := bind_eq_ok_iff.1 h
    cases argument with
    | true =>
      have hscalar : isScalar v = .ok outside := h
      simp [hwritten, hargument, hscalar]
    | false =>
      cases h
      simp [hwritten, hargument]

theorem isSome_scalarClass_iff (h : g.scalarClass (g.contextBetween loop left right) v regions = .ok kind) :
    kind.isSome ↔ g.WrittenIn loop left regions ∨ g.ScalarArgument loop v ∨ g.WrittenFirst loop regions := by
  obtain ⟨outside, houtside, h⟩ := bind_eq_ok_iff.1 h
  have hvalue : outside ↔ g.WrittenIn loop left regions ∨ g.ScalarArgument loop v := hasValueAt_iff houtside
  rw [← or_assoc, ← hvalue, ← firstWritten_iff]
  split at h
  · next hread =>
    cases h
    exact iff_of_true rfl (.inl (Bool.and_eq_true_iff.1 hread).1)
  · split at h
    · next hfirst =>
      obtain ⟨scalar, -, h⟩ := bind_eq_ok_iff.1 h
      cases h
      exact iff_of_true rfl (Bool.or_eq_true_iff.1 hfirst)
    · next hfirst =>
      cases h
      exact iff_of_false Bool.false_ne_true fun h => hfirst (Bool.or_eq_true_iff.2 h)

theorem isSome_classOf_iff (h : g.classOf (g.contextBetween loop left right) v regions = .ok kind) :
    kind.isSome ↔
      g.IndexBelow loop v.name ∨ (loop.reduction ∧ g.ReducedIn loop v) ∨
        g.WrittenIn loop left regions ∨ g.ScalarArgument loop v ∨ g.WrittenFirst loop regions := by
  unfold classOf at h
  split at h
  · next hindex =>
    cases h
    exact iff_of_true rfl (.inl (isLoopIndexBelow_iff.1 hindex))
  · next hindex =>
    have hbelow : ¬ g.IndexBelow loop v.name := fun hbelow => hindex (isLoopIndexBelow_iff.2 hbelow)
    rw [or_iff_right hbelow]
    cases hmark : loop.reduction with
    | false =>
      simp only [contextBetween, hmark] at h
      rw [or_iff_right fun hreduced => Bool.false_ne_true hreduced.1]
      exact isSome_scalarClass_iff h
    | true =>
      simp only [contextBetween, hmark] at h
      obtain ⟨reduced, hreduced, h⟩ := bind_eq_ok_iff.1 h
      cases reduced with
      | true =>
        cases h
        exact iff_of_true rfl (.inl ⟨rfl, isReductionVariable_eq_ok_true_iff.1 hreduced⟩)
      | false =>
        have hnot : ¬(true ∧ g.ReducedIn loop v) := fun hand => by
          have htrue := isReductionVariable_eq_ok_true_iff.2 hand.2
          rw [hreduced] at htrue
          cases htrue
        rw [or_iff_right hnot]
        exact isSome_scalarClass_iff h

/-- Of the regions of a variable those count that are known before the loop or that the loop
initialises. -/
def countedRegions (g : Graph) (loop : Node) (before : List Node) (regions : List Region) : List Region :=
  regions.filter
    ((g.variablesOf before).flatMap (·.2) ++ (g.initialised (g.subtreeUnits loop)).flatMap (·.2)).contains

theorem nodup_names_outsideVariables {withGlobals : Bool} (h : g.outsideVariables loop withGlobals = .ok outside) :
    (outside.map fun e => e.1.name).Nodup := by
  obtain ⟨vars, hvars, h⟩ := bind_eq_ok_iff.1 h
  cases h
  have hall : ((g.variablesOf (g.subtreeUnits loop)).map fun e => e.1.name).Nodup := by
    have hfirst := nodup_map_name_firstNamed ((g.subtreeUnits loop).flatMap Node.ownVariables)
    rwa [← map_fst_variablesOf, map_map] at hfirst
  obtain ⟨-, rfl⟩ := filterM_eq_ok_iff.1 hvars
  exact hall.sublist ((filter_sublist.trans filter_sublist).map _)

end Graph

/-! ## The classes as parts of the variables from outside -/

/-- Each class of a loop is in the order of names, and holds the variables from outside that belong
to it. -/
theorem classifyLoop_outside {g' : Graph} (h : (classifyLoop loop).runOn g = (.ok classes, g')) :
    ∃ outside before left right, g.outsideVariables loop false = .ok outside ∧
      g.beside loop false true = .ok before ∧ g.beside loop false false = .ok left ∧
      (∀ k, (classes.of k).Pairwise fun v w => v.name < w.name) ∧ (∀ e ∈ outside, ∃ kind,
        g.classOf (g.contextBetween loop left right) e.1 (g.countedRegions loop before e.2) = .ok kind) ∧
      ∀ k v, v ∈ classes.of k ↔ ∃ e ∈ outside, e.1 = v ∧
        g.classOf (g.contextBetween loop left right) e.1 (g.countedRegions loop before e.2) = .ok (some k) := by
  obtain ⟨c, vars, hcontext, hvars, hall, hclasses⟩ := classifyLoop_classes h
  obtain ⟨left, hleft, hcontext⟩ := bind_eq_ok_iff.1 hcontext
  obtain ⟨right, -, hcontext⟩ := bind_eq_ok_iff.1 hcontext
  cases hcontext
  obtain ⟨outside, houtside, hvars⟩ := bind_eq_ok_iff.1 hvars
  obtain ⟨before, hbefore, hvars⟩ := bind_eq_ok_iff.1 hvars
  cases hvars
  refine ⟨outside, before, left, right, houtside, hbefore, hleft, fun k => ?_, fun e he => ?_, fun k v => ?_⟩
  · refine pairwise_of_sortVariables (hclasses k) ((nodup_names_outsideVariables houtside).sublist ?_)
    rw [map_map]
    exact (filter_sublist.map _).trans (by simp [Function.comp_def])
  · exact hall _ (mem_map.2 ⟨e, he, rfl⟩)
  · rw [(sortVariables_perm (hclasses k)).mem_iff]
    simp only [mem_map, mem_filter, hasClass_iff]
    constructor
    · rintro ⟨_, ⟨⟨e, he, rfl⟩, hclass⟩, rfl⟩
      exact ⟨e, he, rfl, hclass⟩
    · rintro ⟨e, he, rfl, hclass⟩
      exact ⟨_, ⟨⟨e, he, rfl⟩, hclass⟩, rfl⟩

/-- The classes of a loop are each in the order of names without repetition, no name stands in two
of them, and they hold only variables from outside of the loop. Such a variable is in a class
exactly if it is an index, a reduction variable of a loop that is marked so, written before the
loop, an argument, or first written in the loop. -/
theorem classifyLoop_partition {loop : Node} {g g' : Graph} {classes : LoopVariables}
    (hrun : (classifyLoop loop).runOn g = (.ok classes, g')) :
    ∃ outside before left, g.outsideVariables loop false = .ok outside ∧
      g.beside loop false true = .ok before ∧ g.beside loop false false = .ok left ∧
      (∀ k, (classes.of k).Pairwise fun v w => v.name < w.name) ∧
      (∀ k k', k ≠ k' → ∀ v ∈ classes.of k, ∀ w ∈ classes.of k', v.name ≠ w.name) ∧
      (∀ k, ∀ v ∈ classes.of k, v ∈ outside.map (·.1)) ∧
      ∀ e ∈ outside, (∃ k, e.1 ∈ classes.of k) ↔
        g.IndexBelow loop e.1.name ∨ (loop.reduction = true ∧ g.ReducedIn loop e.1) ∨
          g.WrittenIn loop left (g.countedRegions loop before e.2) ∨ g.ScalarArgument loop e.1 ∨
          g.WrittenFirst loop (g.countedRegions loop before e.2) := by
  obtain ⟨outside, before, left, right, houtside, hbefore, hleft, hsorted, hall, hmem⟩ := classifyLoop_outside hrun
  -- a name from outside belongs to one variable, with one list of regions
  have hunique : ∀ e ∈ outside, ∀ e' ∈ outside, e.1.name = e'.1.name → e = e' := fun e he e' he' heq =>
    inj_on_of_nodup_map (nodup_names_outsideVariables houtside) he he' heq
  refine ⟨outside, before, left, houtside, hbefore, hleft, hsorted, ?_, ?_, fun e he => ?_⟩
  · intro k k' hne v hv w hw hname
    obtain ⟨e, he, rfl, hclass⟩ := (hmem k v).1 hv
    obtain ⟨e', he', rfl, hclass'⟩ := (hmem k' w).1 hw
    obtain rfl := hunique e he e' he' hname
    rw [hclass] at hclass'
    cases hclass'
    exact hne rfl
  · intro k v hv
    obtain ⟨e, he, rfl, -⟩ := (hmem k v).1 hv
    exact mem_map_of_mem he
  · obtain ⟨kind, hkind⟩ := hall e he
    rw [← isSome_classOf_iff hkind, Option.isSome_iff_exists]
    refine exists_congr fun k => ?_
    rw [hmem]
    constructor
    · rintro ⟨e', he', heq, hclass⟩
      obtain rfl := hunique e' he' e he (congrArg Variable.name heq)
      rw [hkind] at hclass
      exact Except.ok.inj hclass
    · rintro rfl
      exact ⟨e, he, rfl, hkind⟩

/-! ### A loop that adds up -/

/-- The loop is marked as a reduction. -/
def summingLoop : Node :=
  { id := "1:2", file := 1, number := 2, startLine := 3, endLine := 5, name := none,
    parentFunction := some "1:0", reduction := true, body := .loop {} }

/-- A unit of the function on one line. -/
def summingUnit (id : NodeId) (number line : Int) (locals : List Variable) : Node :=
  { id, file := 1, number, startLine := line, endLine := line, name := none,
    parentFunction := some "1:0", body := .unit { locals } }

/-- A dependence on a variable that has one region. -/
def summingDependence (kind : DependenceKind) (name region : String) (source sink : LineId) : Dependence :=
  { edge := .data, kind := some kind, var := some name, region := some region,
    sourceLine := some source, sinkLine := some sink }

/-- The loop adds to `s` what it computes from `x`, which is written before it. Its index is `i`,
and `z` keeps what an earlier iteration has left there. -/
def summingGraph : Graph where
  nodes := ⟨[
    ("1:0",
      { id := "1:0", file := 1, number := 0, startLine := 1, endLine := 7, name := none,
        body := .function {} }),
    ("1:1", summingUnit "1:1" 1 2 [definedAt "x" 1 2]),
    ("1:2", summingLoop),
    ("1:3", summingUnit "1:3" 3 4 [definedAt "z" 1 2, definedAt "x" 1 2, definedAt "s" 1 2, definedAt "i" 1 2])]⟩
  links := [⟨"1:0", "1:1", [(0, { edge := .child })]⟩, ⟨"1:0", "1:2", [(0, { edge := .child })]⟩,
    ⟨"1:2", "1:3", [(0, { edge := .child })]⟩,
    ⟨"1:3", "1:1", [(0, summingDependence .readAfterWrite "x" "rx" "1:2" "1:4")]⟩,
    ⟨"1:3", "1:3", [(0, summingDependence .readAfterWrite "i" "ri" "1:3" "1:3"),
      (1, summingDependence .initial "z" "rz" "1:4" "1:4"),
      (2, summingDependence .writeAfterRead "z" "rz" "1:4" "1:4")]⟩]
  reductions := some [⟨"1:3", "s", "1:4", "+"⟩]

/-- The classes of the loop; `z` has none. -/
def summedClasses : LoopVariables where
  firstPrivate := [definedAt "x" 1 2]
  privates := [definedAt "i" 1 2]
  reduction := [definedAt "s" 1 2]

theorem runOn_classifyLoop_summingLoop :
    (classifyLoop summingLoop).runOn summingGraph = (.ok summedClasses, summingGraph) := by
  -- the order is computed by a recursion that is not unfolded otherwise
  with_unfolding_all rfl

/-- The classes of a loop with an index, a reduction variable, a variable that is written before it,
and one that has no class. -/
theorem classifyLoop_partition_summingGraph :
    (classifyLoop summingLoop).runOn summingGraph = (.ok summedClasses, summingGraph) ∧
      ∃ outside before left, summingGraph.outsideVariables summingLoop false = .ok outside ∧
        summingGraph.beside summingLoop false true = .ok before ∧
        summingGraph.beside summingLoop false false = .ok left ∧
        (∀ k, (summedClasses.of k).Pairwise fun v w => v.name < w.name) ∧
        (∀ k k', k ≠ k' → ∀ v ∈ summedClasses.of k, ∀ w ∈ summedClasses.of k', v.name ≠ w.name) ∧
        (∀ k, ∀ v ∈ summedClasses.of k, v ∈ outside.map (·.1)) ∧
        ∀ e ∈ outside, (∃ k, e.1 ∈ summedClasses.of k) ↔
          summingGraph.IndexBelow summingLoop e.1.name ∨
            (summingLoop.reduction = true ∧ summingGraph.ReducedIn summingLoop e.1) ∨
            summingGraph.WrittenIn summingLoop left (summingGraph.countedRegions summingLoop before e.2) ∨
            summingGraph.ScalarArgument summingLoop e.1 ∨
            summingGraph.WrittenFirst summingLoop (summingGraph.countedRegions summingLoop before e.2) :=
  ⟨runOn_classifyLoop_summingLoop, classifyLoop_partition runOn_classifyLoop_summingLoop⟩

end ParallelPatterns
