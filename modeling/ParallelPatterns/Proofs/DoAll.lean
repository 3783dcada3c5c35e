import ParallelPatterns.Proofs.Operators
import ParallelPatterns.Proofs.Subtree

/-!
# When a loop is a do-all loop

The dependences of a loop are scanned pair by pair of its direct children. Since the units below the
children are all the units below the loop, the scan meets exactly the data dependences between the
units of the loop, and the verdict is exact: a loop is a do-all loop if none of its units accesses
files and none of those dependences blocks it.
-/

namespace ParallelPatterns.Graph

open List

variable {g : Graph} {e : Edge} {loop : Node} {verdict : Bool} {privates : List (Option String)}
  {inner : List Region}

/-! ## The scanned dependences -/

theorem mem_of_mem_pairs {α : Type} {xs : List α} {a b : α} (h : (a, b) ∈ pairs xs) : a ∈ xs ∧ b ∈ xs := by
  induction xs with
  | nil => cases h
  | cons x xs ih =>
    rw [pairs, mem_append] at h
    rcases h with h | h
    · obtain ⟨y, hy, heq⟩ := mem_map.1 h
      cases heq
      exact ⟨by simp, hy⟩
    · exact ⟨mem_cons_of_mem _ (ih h).1, mem_cons_of_mem _ (ih h).2⟩

theorem mem_pairs_or {α : Type} {xs : List α} {a b : α} (ha : a ∈ xs) (hb : b ∈ xs) :
    (a, b) ∈ pairs xs ∨ (b, a) ∈ pairs xs := by
  induction xs with
  | nil => cases ha
  | cons x xs ih =>
    simp only [pairs, mem_append]
    rcases mem_cons.1 ha with rfl | hax
    · exact .inl (.inl (mem_map.2 ⟨b, hb, rfl⟩))
    · rcases mem_cons.1 hb with rfl | hbx
      · exact .inr (.inl (mem_map.2 ⟨a, ha, rfl⟩))
      · rcases ih hax hbx with h | h
        · exact .inl (.inr h)
        · exact .inr (.inr h)

theorem mem_dataAmong_iff {ids : List NodeId} :
    e ∈ g.dataAmong ids ↔
      e ∈ g.links.flatMap Link.toEdges ∧ e.dep.edge = .data ∧ e.source ∈ ids ∧ e.target ∈ ids := by
  simp only [dataAmong, inData, outData, inEdgesOf, outEdgesOf, mem_flatMap, mem_append,
    mem_filter, mem_inEdges_iff, mem_outEdges_iff, contains_iff_mem, mem_singleton]
  constructor
  · rintro ⟨id, hid, ⟨⟨⟨rfl, he⟩, hdata⟩, hsource⟩ | ⟨⟨⟨rfl, he⟩, hdata⟩, htarget⟩⟩
    · exact ⟨he, hdata, hsource, hid⟩
    · exact ⟨he, hdata, hid, htarget⟩
  · rintro ⟨he, hdata, hsource, htarget⟩
    exact ⟨e.source, hsource, .inr ⟨⟨⟨rfl, he⟩, hdata⟩, htarget⟩⟩

/-- A data dependence between two units below a node. -/
structure DataBelow (g : Graph) (root : Node) (e : Edge) : Prop where
  edge : e ∈ g.edges
  data : e.dep.edge = .data
  source : e.source ∈ g.unitIds root
  target : e.target ∈ g.unitIds root

theorem mem_edges_iff : e ∈ g.edges ↔ (g.node? e.source).isSome ∧ e ∈ g.links.flatMap Link.toEdges := by
  simp only [edges, mem_flatMap, mem_outEdges_iff, mem_keys_iff]
  constructor
  · rintro ⟨id, hid, rfl, he⟩
    exact ⟨hid, he⟩
  · rintro ⟨hid, he⟩
    exact ⟨e.source, hid, rfl, he⟩

/-- The scan over pairs of direct children meets exactly the data dependences between units below
the node, also where the children share units or call each other. -/
theorem scanned_iff (hg : g.WellFormed) {root : Node} (hroot : g.node? root.id = some root)
    (hkind : root.kind ≠ .unit) :
    (∃ p ∈ pairs ((g.childrenOrCalled root.id).map g.unitIds), e ∈ g.dataAmong (p.1 ++ p.2)) ↔
      g.DataBelow root e := by
  have hchild : ∀ id, id ∈ g.unitIds root ↔ ∃ ids ∈ (g.childrenOrCalled root.id).map g.unitIds, id ∈ ids := by
    intro id
    rw [mem_unitIds_iff_child hg hroot hkind]
    simp
  constructor
  · rintro ⟨⟨ids, others⟩, hpair, he⟩
    obtain ⟨hids, hothers⟩ := mem_of_mem_pairs hpair
    obtain ⟨hedge, hdata, hsource, htarget⟩ := mem_dataAmong_iff.1 he
    have hunit : ∀ id, id ∈ ids ++ others → id ∈ g.unitIds root := by
      intro id hid
      rcases mem_append.1 hid with hid | hid
      · exact (hchild id).2 ⟨ids, hids, hid⟩
      · exact (hchild id).2 ⟨others, hothers, hid⟩
    have hknown : (g.node? e.source).isSome := by
      obtain ⟨u, hu, hid⟩ := mem_map.1 (hunit _ hsource)
      rw [← hid, ((mem_subtreeUnits_iff hg hroot).1 hu).2.1]
      rfl
    exact ⟨mem_edges_iff.2 ⟨hknown, hedge⟩, hdata, hunit _ hsource, hunit _ htarget⟩
  · rintro ⟨hedge, hdata, hsource, htarget⟩
    obtain ⟨ids, hids, hsource⟩ := (hchild _).1 hsource
    obtain ⟨others, hothers, htarget⟩ := (hchild _).1 htarget
    have hlinks := (mem_edges_iff.1 hedge).2
    -- a pair is scanned as a whole, so it does not matter which of its children comes first
    rcases mem_pairs_or hids hothers with hpair | hpair
    · exact ⟨_, hpair, mem_dataAmong_iff.2 ⟨hlinks, hdata, by simp [hsource], by simp [htarget]⟩⟩
    · exact ⟨_, hpair, mem_dataAmong_iff.2 ⟨hlinks, hdata, by simp [hsource], by simp [htarget]⟩⟩

/-! ## What blocks a loop -/

/-- The region is one of a variable of the loop's units that counts as defined inside of the
loop. -/
def InnerRegion (g : Graph) (loop : Node) (r : Region) : Prop :=
  ∃ v ∈ g.variablesOf (g.subtreeUnits loop),
    (∃ line, v.1.defLine = some line ∧ definedBetween line loop.start loop.finish) ∧ r ∈ v.2

/-- The lines on which a loop and its inner loops begin. -/
def headerLines (g : Graph) (loop : Node) : List LineId := (g.subtreeLoops loop).map (·.start)

/-- The dependence does not count: its memory is only read in the body of the loop, or its variable
is a loop index, or its region belongs to a variable that is defined inside of the loop. -/
def Exempt (g : Graph) (loop : Node) (d : Dependence) : Prop :=
  g.isReadOnlyInBody d (g.subtreeUnits loop) (g.headerLines loop) ∨
    g.isLoopIndex d.var (g.headerLines loop) (g.subtreeUnits loop) ∨
    ∃ r, d.region = some r ∧ g.InnerRegion loop r

/-- The dependence belongs to a level above the nesting level of the loop. -/
def BeyondLevel (g : Graph) (loop : Node) (d : Dependence) : Prop :=
  ∃ level, g.nestingLevel loop.id true = .ok level ∧ level < d.level

/-- The dependence is carried between iterations: a read after a write, or a write after a read. -/
def Carried (g : Graph) (loop : Node) (privates : List (Option String)) (d : Dependence) : Prop :=
  d.kind = some .readAfterWrite ∧ (d.intraIteration = false ∨ g.BeyondLevel loop d) ∨
    d.kind = some .writeAfterRead ∧
      (d.intraIteration = false ∧ d.var ∉ privates ∨ d.intraIteration ∧ g.BeyondLevel loop d)

/-- The dependence keeps the iterations of the loop from running in any order. -/
def Blocks (g : Graph) (loop : Node) (privates : List (Option String)) (d : Dependence) : Prop :=
  ¬ g.Exempt loop d ∧ g.Carried loop privates d

theorem beyondLevel_iff {d : Dependence}
    (h : (do return decide ((← g.nestingLevel loop.id true) < d.level) : Result Bool) = .ok verdict) :
    verdict ↔ g.BeyondLevel loop d := by
  obtain ⟨level, hlevel, hverdict⟩ := bind_eq_ok_iff.1 h
  cases hverdict
  rw [BeyondLevel, hlevel]
  simp

theorem isCarried_iff (h : g.isCarried loop privates e = .ok verdict) :
    verdict ↔ g.Carried loop privates e.dep := by
  unfold isCarried at h
  unfold Carried
  split at h
  · rename_i hkind
    split at h
    · rename_i hintra
      rw [beyondLevel_iff h]
      simp [hkind, hintra]
    · rename_i hintra
      cases h
      simp [hkind, hintra]
  · rename_i hkind
    split at h
    · rename_i hintra
      rw [beyondLevel_iff h]
      simp [hkind, hintra]
    · rename_i hintra
      cases h
      simp [hkind, hintra]
  · rename_i hraw hwar
    cases h
    have hraw' : e.dep.kind ≠ some .readAfterWrite := hraw
    have hwar' : e.dep.kind ≠ some .writeAfterRead := hwar
    simp [hraw', hwar']

theorem mem_innerRegions_iff (h : g.innerRegions loop (g.subtreeUnits loop) = .ok inner)
    (r : Region) : r ∈ inner ↔ g.InnerRegion loop r := by
  obtain ⟨vars, hvars, hinner⟩ := bind_eq_ok_iff.1 h
  cases hinner
  have hdefined : ∀ v : Variable × List Region,
      (do return definedBetween (← definitionOf v.1) loop.start loop.finish : Result Bool) = .ok true ↔
        ∃ line, v.1.defLine = some line ∧ definedBetween line loop.start loop.finish := by
    intro v
    rw [bind_eq_ok_iff, definitionOf]
    cases v.1.defLine <;> simp [pure, Except.pure]
  rw [mem_flatMap]
  constructor
  · rintro ⟨v, hv, hr⟩
    obtain ⟨hmem, hbetween⟩ := (mem_of_filterM_eq_ok hvars v).1 hv
    exact ⟨v, hmem, (hdefined v).1 hbetween, hr⟩
  · rintro ⟨v, hmem, hbetween, hr⟩
    exact ⟨v, (mem_of_filterM_eq_ok hvars v).2 ⟨hmem, (hdefined v).2 hbetween⟩, hr⟩

theorem exempt_iff (hinner : ∀ r, r ∈ inner ↔ g.InnerRegion loop r) (e : Edge) :
    ((g.loopView loop).isHarmless e.dep || Access.concerns inner e) ↔ g.Exempt loop e.dep := by
  have hregion : Access.concerns inner e ↔ ∃ r, e.dep.region = some r ∧ g.InnerRegion loop r := by
    simp [Access.concerns, Option.any_eq_true, hinner]
  rw [Bool.or_eq_true, hregion, LoopView.isHarmless, Bool.or_eq_true, or_assoc]
  rfl

theorem hindersDoAll_iff (hinner : ∀ r, r ∈ inner ↔ g.InnerRegion loop r)
    (h : g.hindersDoAll (g.loopView loop) privates inner e = .ok verdict) :
    verdict ↔ g.Blocks loop privates e.dep := by
  unfold hindersDoAll at h
  rw [Blocks, ← exempt_iff hinner e]
  split at h
  · rename_i hexempt
    cases h
    simp [hexempt]
  · rename_i hexempt
    have hcarried : verdict ↔ g.Carried loop privates e.dep := isCarried_iff h
    rw [← hcarried]
    simp [hexempt]

theorem hindersBetweenChildren_iff (hg : g.WellFormed)
    (hloop : g.node? loop.id = some loop) (hkind : loop.kind ≠ .unit)
    (hinner : ∀ r, r ∈ inner ↔ g.InnerRegion loop r)
    (h : g.hindersBetweenChildren (g.loopView loop) privates inner = .ok verdict) :
    verdict ↔ ∃ e, g.DataBelow loop e ∧ g.Blocks loop privates e.dep := by
  cases verdict with
  | true =>
    obtain ⟨p, hp, hpair⟩ := exists_of_anyM_eq_ok_true h
    obtain ⟨e, he, htrue⟩ := exists_of_anyM_eq_ok_true hpair
    have hbelow : g.DataBelow loop e := (scanned_iff hg hloop hkind).1 ⟨p, hp, he⟩
    exact ⟨fun _ => ⟨e, hbelow, (hindersDoAll_iff hinner htrue).1 rfl⟩, fun _ => rfl⟩
  | false =>
    refine ⟨fun hfalse => absurd hfalse Bool.false_ne_true, ?_⟩
    rintro ⟨e, hbelow, hblocks⟩
    obtain ⟨p, hp, he⟩ := (scanned_iff hg hloop hkind).2 hbelow
    have hfalse := forall_of_anyM_eq_ok_false (forall_of_anyM_eq_ok_false h p hp) e he
    exact (hindersDoAll_iff hinner hfalse).2 hblocks

/-! ## The verdict -/

theorem levelsFrom_withOperators (g : Graph) (operators : Table Nat String) (levelOf : NodeId → Result Int)
    (ids : List NodeId) : levelsFrom { g with operators } levelOf ids = g.levelsFrom levelOf ids := by
  induction ids with
  | nil => rfl
  | cons id ids ih =>
    unfold levelsFrom
    rw [ih]
    rfl

theorem parentLevels_withOperators (g : Graph) (operators : Table Nat String) (fuel : Nat)
    (id : NodeId) : parentLevels { g with operators } fuel id = g.parentLevels fuel id := by
  induction fuel generalizing id with
  | zero => rfl
  | succ fuel ih =>
    unfold parentLevels
    rw [levelsFrom_withOperators]
    simp only [ih]
    rfl

theorem hindersBetweenChildren_withOperators (g : Graph) (operators : Table Nat String)
    (v : LoopView) (privates : List (Option String)) (inner : List Region) :
    hindersBetweenChildren { g with operators } v privates inner = g.hindersBetweenChildren v privates inner := by
  have hcarried : isCarried { g with operators } v.loop privates = g.isCarried v.loop privates := by
    unfold isCarried nestingLevel
    rw [parentLevels_withOperators]
    rfl
  unfold hindersBetweenChildren hindersDoAll
  rw [hcarried]
  rfl

end ParallelPatterns.Graph

namespace ParallelPatterns

open ParallelPatterns.Graph

variable {loop : Node} {g g' : Graph}

theorem operators_of_classifyLoop {classes : LoopVariables}
    (h : (classifyLoop loop).runOn g = (.ok classes, g')) : ∃ operators, g' = { g with operators } := by
  obtain ⟨signs, -, rfl, -⟩ := classifyLoop_spec h
  obtain ⟨operators, hgiven, -⟩ := g.giveOperators_eq signs
  exact ⟨operators, hgiven⟩

theorem runOn_isDoAllLoop {verdict : Bool} (h : (isDoAllLoop loop).runOn g = (.ok verdict, g')) :
    ∃ classes inner, (classifyLoop loop).runOn g = (.ok classes, g') ∧
      g.innerRegions loop (g.subtreeUnits loop) = .ok inner ∧
      (accessesFiles (g.subtreeUnits loop) ∧ verdict = false ∨
        accessesFiles (g.subtreeUnits loop) = false ∧
          g.hindersBetweenChildren (g.loopView loop) classes.privateNames inner = .ok !verdict) := by
  obtain ⟨classes, g₁, hclasses, h⟩ := Analysis.runOn_bind_eq_ok h
  obtain ⟨operators, rfl⟩ := operators_of_classifyLoop hclasses
  rw [Analysis.runOn_graph_bind] at h
  obtain ⟨inner, hinner, h⟩ := Analysis.runOn_lift_bind_eq_ok h
  split at h
  · rename_i hfiles
    cases h
    exact ⟨classes, inner, hclasses, hinner, .inl ⟨hfiles, rfl⟩⟩
  · rename_i hfiles
    obtain ⟨hinders, hscan, h⟩ := Analysis.runOn_lift_bind_eq_ok h
    cases h
    rw [hindersBetweenChildren_withOperators] at hscan
    rw [Bool.not_not]
    exact ⟨classes, inner, hclasses, hinner, .inr ⟨Bool.eq_false_iff.2 hfiles, hscan⟩⟩

theorem accessesFiles_eq_false_iff {units : List Node} :
    accessesFiles units = false ↔ ∀ u ∈ units, ∀ b, u.unit? = some b → b.fileAccess = false := by
  rw [accessesFiles, List.any_eq_false]
  refine forall₂_congr fun u _ => ?_
  cases u.unit? <;> simp

theorem kind_ne_unit_of_isLoop {n : Node} (h : n.isLoop) : n.kind ≠ .unit := by
  rw [Node.isLoop, beq_iff_eq] at h
  simp [h]

theorem exempt_of_isDoAllLoop (hg : g.WellFormed) (hloop : g.node? loop.id = some loop)
    (hkind : loop.isLoop) (hrun : (isDoAllLoop loop).runOn g = (.ok true, g')) {e : Edge}
    (hbelow : g.DataBelow loop e) (hraw : e.dep.kind = some .readAfterWrite)
    (hinter : e.dep.intraIteration = false) : g.Exempt loop e.dep := by
  obtain ⟨classes, inner, -, hinner, ⟨-, hfalse⟩ | ⟨-, hscan⟩⟩ := runOn_isDoAllLoop hrun
  · cases hfalse
  · have hblocked := hindersBetweenChildren_iff hg hloop (kind_ne_unit_of_isLoop hkind)
      (mem_innerRegions_iff hinner) hscan
    by_contra hexempt
    exact absurd (hblocked.2 ⟨e, hbelow, hexempt, .inl ⟨hraw, .inl hinter⟩⟩) Bool.false_ne_true

/-- A loop for which the test gives a verdict is a do-all loop exactly if no unit below it accesses
files and no data dependence between two units below it blocks it. -/
theorem isDoAllLoop_iff {g : Graph} (hg : g.WellFormed) {loop : Node}
    (hloop : g.node? loop.id = some loop) (hkind : loop.isLoop = true) {verdict : Bool} {g' : Graph}
    (hrun : (isDoAllLoop loop).runOn g = (.ok verdict, g')) :
    ∃ classes, (classifyLoop loop).runOn g = (.ok classes, g') ∧
      (verdict = true ↔
        (∀ u ∈ g.subtreeUnits loop, ∀ b, u.unit? = some b → b.fileAccess = false) ∧
          ∀ e, g.DataBelow loop e → ¬ g.Blocks loop classes.privateNames e.dep) := by
  obtain ⟨classes, inner, hclasses, hinner, hcases⟩ := runOn_isDoAllLoop hrun
  refine ⟨classes, hclasses, ?_⟩
  rw [← accessesFiles_eq_false_iff]
  rcases hcases with ⟨hfiles, rfl⟩ | ⟨hfiles, hscan⟩
  · simp [hfiles]
  · have hblocked := hindersBetweenChildren_iff hg hloop (kind_ne_unit_of_isLoop hkind)
      (mem_innerRegions_iff hinner) hscan
    cases verdict with
    | true =>
      refine ⟨fun _ => ⟨hfiles, fun e hbelow hblocks => ?_⟩, fun _ => rfl⟩
      exact absurd (hblocked.2 ⟨e, hbelow, hblocks⟩) Bool.false_ne_true
    | false =>
      obtain ⟨e, hbelow, hblocks⟩ := hblocked.1 rfl
      exact ⟨fun h => absurd h Bool.false_ne_true, fun h => absurd hblocks (h.2 e hbelow)⟩

/-- A loop with two units, which both call the function around the loop. -/
def recursiveLoop : Node :=
  { id := "1:1", file := 1, number := 1, startLine := 2, endLine := 4, name := none,
    parentFunction := some "1:0", body := .loop {} }

/-- The second unit reads, in the same iteration, what the first one wrote. -/
def recursiveDependence : Edge where
  source := "1:3"
  target := "1:2"
  key := 0
  dep :=
    { edge := .data, kind := some .readAfterWrite, var := some "x", region := some "r",
      sourceLine := some "1:3", sinkLine := some "1:4", intraIteration := true, level := 0 }

def recursiveGraph : Graph where
  nodes :=
    let unit (id : NodeId) (number line : Int) : Node :=
      { id, file := 1, number, startLine := line, endLine := line, name := none, parentFunction := some "1:0",
        body := .unit {} }
    ⟨[("1:0", { id := "1:0", file := 1, number := 0, startLine := 1, endLine := 5, name := some "f",
                body := .function {} }),
      ("1:1", recursiveLoop), ("1:2", unit "1:2" 2 3), ("1:3", unit "1:3" 3 4)]⟩
  links :=
    let link (s t : NodeId) (kind : EdgeKind) : Link := ⟨s, t, [(0, { edge := kind })]⟩
    [link "1:0" "1:1" .child, link "1:1" "1:2" .child, link "1:1" "1:3" .child, link "1:2" "1:0" .call,
      link "1:3" "1:0" .call, ⟨"1:3", "1:2", [(0, recursiveDependence.dep)]⟩]

/-- Both children of the loop reach both units; the dependence between them stays in its
iteration. -/
theorem isDoAllLoop_iff_recursiveLoop :
    recursiveGraph.DataBelow recursiveLoop recursiveDependence ∧
      ∃ classes g', (isDoAllLoop recursiveLoop).runOn recursiveGraph = (.ok true, g') ∧
        (classifyLoop recursiveLoop).runOn recursiveGraph = (.ok classes, g') ∧
        ∀ e, recursiveGraph.DataBelow recursiveLoop e →
          ¬ recursiveGraph.Blocks recursiveLoop classes.privateNames e.dep := by
  have hg : recursiveGraph.WellFormed := .of_entries (by decide) (by decide)
  have hrun : (isDoAllLoop recursiveLoop).runOn recursiveGraph =
      (.ok true, ((isDoAllLoop recursiveLoop).runOn recursiveGraph).2) := rfl
  obtain ⟨classes, hclasses, hverdict⟩ := isDoAllLoop_iff hg rfl rfl hrun
  exact ⟨⟨by decide, rfl, by decide, by decide⟩, classes, _, hrun, hclasses, (hverdict.1 rfl).2⟩

end ParallelPatterns
