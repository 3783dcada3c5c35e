import ParallelPatterns.Proofs.LoopClasses

/-!
# Arrays of a parallel loop

An array should be shared by the iterations of a parallel loop. Types that end with two stars or
begin with the word for an array are taken as those of arrays; types that begin with a bracket are
taken as those of single values. So only arrays of such a type become private, and they do exactly
if a single value would: if the loop sets them.
-/

namespace ParallelPatterns

variable {type : String} {v : Variable} {regions : List Region}

/-- The type is that of an array, or of a pointer to a pointer. -/
def IsArrayType (type : String) : Prop :=
  "**".toList <:+ type.toList ∨ "ARRAY".toList <+: type.toList ∨ "[".toList <+: type.toList

/-- The type is that of an array that is written in brackets, without two stars behind it. -/
def IsBracketType (type : String) : Prop := "[".toList <+: type.toList ∧ ¬ "**".toList <:+ type.toList

theorem IsBracketType.isArrayType (h : IsBracketType type) : IsArrayType type := .inr (.inr h.1)

theorem isScalarType_iff :
    Access.isScalarType type ↔ ¬ "**".toList <:+ type.toList ∧ ¬ "ARRAY".toList <+: type.toList := by
  rw [Access.isScalarType, Bool.not_eq_true', ← Bool.not_eq_true, Bool.or_eq_true, not_or,
    Text.begins_iff, Text.ends, List.isSuffixOf_iff_suffix]

theorem isScalarType_iff_bracket (harray : IsArrayType type) : Access.isScalarType type ↔ IsBracketType type := by
  rw [isScalarType_iff]
  constructor
  · rintro ⟨hstars, hword⟩
    exact ⟨(harray.resolve_left hstars).resolve_left hword, hstars⟩
  · rintro ⟨⟨rest, hbracket⟩, hstars⟩
    refine ⟨hstars, ?_⟩
    rintro ⟨rest', hword⟩
    rw [← hbracket] at hword
    exact absurd (List.head_eq_of_cons_eq hword) (by decide)

namespace Variable

/-- The variable is an array. -/
def IsArray (v : Variable) : Prop := ∃ type, v.type = some type ∧ IsArrayType type

/-- The variable is an array whose type is written in brackets. -/
def IsBracketArray (v : Variable) : Prop := ∃ type, v.type = some type ∧ IsBracketType type

theorem IsBracketArray.isArray : v.IsBracketArray → v.IsArray
  | ⟨type, htype, hbracket⟩ => ⟨type, htype, hbracket.isArrayType⟩

theorem isScalar_iff_bracket (harray : v.IsArray) : Access.isScalar v = .ok true ↔ v.IsBracketArray := by
  obtain ⟨type, htype, harray⟩ := harray
  simp only [Access.isScalar, IsBracketArray, htype, Except.ok.injEq, Option.some.injEq,
    exists_eq_left', isScalarType_iff_bracket harray]

end Variable

/-! ## Private variables -/

namespace LoopClass

/-- Each iteration has its own copy of the variables of the class, which gets no value from before
the loop. -/
def IsPrivate (k : LoopClass) : Prop := k = .privates ∨ k = .lastPrivate

end LoopClass

namespace Graph

variable {g : Graph} {loop : Node}

/-- None of the regions is written in the loop. -/
def OnlyRead (g : Graph) (loop : Node) (regions : List Region) : Prop :=
  ∀ u ∈ g.subtreeUnits loop, ∀ e, e ∈ g.outDataOf u.id .writeAfterRead ∨ e ∈ g.outDataOf u.id .writeAfterWrite ∨
    e ∈ g.inDataOf u.id .readAfterWrite → ¬ OnRegions regions e

theorem readOnly_iff :
    Access.readOnly regions (g.accessesOf (g.subtreeUnits loop)).war (g.accessesOf (g.subtreeUnits loop)).waw
        (g.accessesOf (g.subtreeUnits loop)).reverseRaw ↔ g.OnlyRead loop regions := by
  simp only [Access.readOnly, accessesOf, List.all_eq_true, List.mem_append, List.mem_flatMap,
    Bool.not_eq_true', ← Bool.not_eq_true, concerns_iff]
  constructor
  · rintro h u hu e (he | he | he)
    · exact h e (.inl (.inl ⟨u, hu, he⟩))
    · exact h e (.inl (.inr ⟨u, hu, he⟩))
    · exact h e (.inr ⟨u, hu, he⟩)
  · rintro h e ((⟨u, hu, he⟩ | ⟨u, hu, he⟩) | ⟨u, hu, he⟩)
    · exact h u hu e (.inl he)
    · exact h u hu e (.inr (.inl he))
    · exact h u hu e (.inr (.inr he))

/-- The variable has a value before the loop: it is written there, or is an argument. -/
def GivenBefore (g : Graph) (loop : Node) (left : List Node) (v : Variable) (regions : List Region) : Prop :=
  g.WrittenIn loop left regions ∨ g.ScalarArgument loop v

/-- The loop sets the variable: it writes one that has a value before, or writes the others
first. -/
def SetIn (g : Graph) (loop : Node) (left : List Node) (v : Variable) (regions : List Region) : Prop :=
  (g.GivenBefore loop left v regions ∧ ¬ g.OnlyRead loop regions) ∨
    (¬ g.GivenBefore loop left v regions ∧ g.WrittenFirst loop regions)

theorem isPrivate_scalarClass_iff {left right : List Node}
    {kind : Option LoopClass} (h : g.scalarClass (g.contextBetween loop left right) v regions = .ok kind) :
    (∃ k, kind = some k ∧ k.IsPrivate) ↔ Access.isScalar v = .ok true ∧ g.SetIn loop left v regions := by
  obtain ⟨outside, houtside, h⟩ := bind_eq_ok_iff.1 h
  have hgiven : outside ↔ g.GivenBefore loop left v regions := hasValueAt_iff houtside
  rw [SetIn, ← hgiven, ← readOnly_iff, ← firstWritten_iff]
  split at h
  · next hread =>
    rw [Bool.and_eq_true] at hread
    cases h
    refine iff_of_false ?_ fun hand => hand.2.elim (fun hwritten => hwritten.2 hread.2) fun hnot => hnot.1 hread.1
    rintro ⟨k, hk, hprivate⟩
    cases hk
    exact absurd hprivate (by split <;> simp [LoopClass.IsPrivate])
  · next hread =>
    rw [Bool.and_eq_true, not_and] at hread
    split at h
    · next hfirst =>
      rw [Bool.or_eq_true, or_iff_not_imp_left] at hfirst
      obtain ⟨scalar, hscalar, h⟩ := bind_eq_ok_iff.1 h
      cases h
      rw [hscalar, and_iff_left ((em _).imp (fun h => ⟨h, hread h⟩) fun h => ⟨h, hfirst h⟩)]
      cases scalar with
      | true =>
        rw [if_pos rfl]
        split <;> simp [LoopClass.IsPrivate]
      | false => simp [LoopClass.IsPrivate]
    · next hfirst =>
      rw [Bool.or_eq_true] at hfirst
      cases h
      exact iff_of_false (by simp) fun hand => hfirst (hand.2.imp And.left And.right)

theorem isPrivate_classOf_iff {left right : List Node} {kind : Option LoopClass}
    (h : g.classOf (g.contextBetween loop left right) v regions = .ok kind)
    (hindex : ¬ g.IndexBelow loop v.name) : (∃ k, kind = some k ∧ k.IsPrivate) ↔
      ¬ (loop.reduction ∧ g.ReducedIn loop v) ∧ Access.isScalar v = .ok true ∧ g.SetIn loop left v regions := by
  have hbelow : ¬ g.isLoopIndexBelow (g.contextBetween loop left right).loop v.name := fun hbelow =>
    hindex (isLoopIndexBelow_iff.1 hbelow)
  unfold classOf at h
  rw [if_neg hbelow] at h
  cases hmark : loop.reduction with
  | false =>
    simp only [contextBetween, hmark] at h
    rw [isPrivate_scalarClass_iff h]
    simp
  | true =>
    simp only [contextBetween, hmark] at h
    obtain ⟨reduced, hreduced, h⟩ := bind_eq_ok_iff.1 h
    have hiff : g.isReductionVariable loop.start v.name = .ok true ↔ g.ReducedIn loop v :=
      isReductionVariable_eq_ok_true_iff
    rw [hreduced] at hiff
    rw [← hiff]
    cases reduced with
    | true =>
      cases h
      simp [LoopClass.IsPrivate]
    | false =>
      rw [isPrivate_scalarClass_iff h]
      simp

end Graph

open ParallelPatterns.Graph

namespace LoopVariables

/-- No array is private to the iterations, unless it is an index of the loop. -/
def KeepsArrays (classes : LoopVariables) (g : Graph) (loop : Node) : Prop :=
  ∀ v, v ∈ classes.privates ∨ v ∈ classes.lastPrivate → v.IsArray → g.IndexBelow loop v.name

theorem mem_private_iff {classes : LoopVariables} {outside : VariableRegions}
    {kind : Variable × List Region → Result (Option LoopClass)} {v : Variable}
    (hmem : ∀ k, v ∈ classes.of k ↔ ∃ e ∈ outside, e.1 = v ∧ kind e = .ok (some k)) :
    v ∈ classes.privates ∨ v ∈ classes.lastPrivate ↔
      ∃ e ∈ outside, e.1 = v ∧ ∃ k : LoopClass, k.IsPrivate ∧ kind e = .ok (some k) := by
  constructor
  · rintro (hv | hv)
    · obtain ⟨e, he, heq, hclass⟩ := (hmem .privates).1 hv
      exact ⟨e, he, heq, .privates, .inl rfl, hclass⟩
    · obtain ⟨e, he, heq, hclass⟩ := (hmem .lastPrivate).1 hv
      exact ⟨e, he, heq, .lastPrivate, .inr rfl, hclass⟩
  · rintro ⟨e, he, heq, k, rfl | rfl, hclass⟩
    · exact .inl ((hmem .privates).2 ⟨e, he, heq, hclass⟩)
    · exact .inr ((hmem .lastPrivate).2 ⟨e, he, heq, hclass⟩)

end LoopVariables

/-- Of the arrays that are no indices of the loop, only such with a type in brackets become private.
None does exactly if, of the variables from outside, the loop sets no such array that is not
combined by a reduction. -/
theorem classifyLoop_keepsArrays_iff {loop : Node} {g g' : Graph} {classes : LoopVariables}
    (hrun : (classifyLoop loop).runOn g = (.ok classes, g')) :
    ∃ outside before left, g.outsideVariables loop false = .ok outside ∧
      g.beside loop false true = .ok before ∧ g.beside loop false false = .ok left ∧
      (∀ v, v ∈ classes.privates ∨ v ∈ classes.lastPrivate → v.IsArray → ¬ v.IsBracketArray →
        g.IndexBelow loop v.name) ∧
      (classes.KeepsArrays g loop ↔
        ∀ e ∈ outside, e.1.IsBracketArray → ¬ g.IndexBelow loop e.1.name →
          ¬ (loop.reduction = true ∧ g.ReducedIn loop e.1) →
          ¬ g.SetIn loop left e.1 (g.countedRegions loop before e.2)) := by
  obtain ⟨outside, before, left, right, houtside, hbefore, hleft, -, hall, hclasses⟩ := classifyLoop_outside hrun
  -- a variable from outside that is no index is private if and only if the tests say so
  have hprivate : ∀ e ∈ outside, ¬ g.IndexBelow loop e.1.name →
      ((∃ k : LoopClass, k.IsPrivate ∧
          g.classOf (g.contextBetween loop left right) e.1 (g.countedRegions loop before e.2) = .ok (some k)) ↔
        ¬ (loop.reduction = true ∧ g.ReducedIn loop e.1) ∧ Access.isScalar e.1 = .ok true ∧
          g.SetIn loop left e.1 (g.countedRegions loop before e.2)) := by
    intro e he hindex
    obtain ⟨kind, hkind⟩ := hall e he
    rw [← isPrivate_classOf_iff hkind hindex, hkind]
    simp [and_comm]
  have hmem := fun v => LoopVariables.mem_private_iff fun k => hclasses k v
  refine ⟨outside, before, left, houtside, hbefore, hleft, ?_, ?_, ?_⟩
  · intro v hv harray hbracket
    by_contra hindex
    obtain ⟨e, he, rfl, hclass⟩ := (hmem v).1 hv
    exact hbracket ((Variable.isScalar_iff_bracket harray).1 ((hprivate e he hindex).1 hclass).2.1)
  · intro hkeeps e he hbracket hindex hreduced hset
    have hscalar := (Variable.isScalar_iff_bracket hbracket.isArray).2 hbracket
    refine hindex (hkeeps e.1 ((hmem e.1).2 ⟨e, he, rfl, ?_⟩) hbracket.isArray)
    exact (hprivate e he hindex).2 ⟨hreduced, hscalar, hset⟩
  · intro hnone v hv harray
    by_contra hindex
    obtain ⟨e, he, rfl, hclass⟩ := (hmem v).1 hv
    obtain ⟨hreduced, hscalar, hset⟩ := (hprivate e he hindex).1 hclass
    exact hnone e he ((Variable.isScalar_iff_bracket harray).1 hscalar) hindex hreduced hset

/-! ### A loop that fills an array -/

/-- A variable of a type that is defined before the loop. -/
def filledVariable (name type : String) : Variable := { definedAt name 1 2 with type := some type }

/-- The loop that fills the arrays. -/
def fillingLoop : Node :=
  { id := "1:2", file := 1, number := 2, startLine := 3, endLine := 5, name := none, parentFunction := some "1:0",
    body := .loop {} }

/-- The loop writes two arrays, and both are read behind it. -/
def fillingGraph : Graph where
  nodes := ⟨[
    ("1:0",
      { id := "1:0", file := 1, number := 0, startLine := 1, endLine := 7, name := none,
        body := .function {} }),
    ("1:2", fillingLoop),
    ("1:3", summingUnit "1:3" 3 4 [filledVariable "a" "[100 x i32]*", filledVariable "b" "i32**"]),
    ("1:4", summingUnit "1:4" 4 6 [])]⟩
  links := [⟨"1:0", "1:2", [(0, { edge := .child })]⟩, ⟨"1:0", "1:4", [(0, { edge := .child })]⟩,
    ⟨"1:2", "1:3", [(0, { edge := .child })]⟩,
    ⟨"1:3", "1:3", [(0, summingDependence .initial "a" "ra" "1:4" "1:4"),
      (1, summingDependence .initial "b" "rb" "1:4" "1:4")]⟩,
    ⟨"1:4", "1:3", [(0, summingDependence .readAfterWrite "a" "ra" "1:4" "1:6"),
      (1, summingDependence .readAfterWrite "b" "rb" "1:4" "1:6")]⟩]

/-- The array in brackets is private, with the value of the last iteration; the other one is
shared. -/
def filledClasses : LoopVariables where
  lastPrivate := [filledVariable "a" "[100 x i32]*"]
  shared := [filledVariable "b" "i32**"]

theorem runOn_classifyLoop_fillingLoop :
    (classifyLoop fillingLoop).runOn fillingGraph = (.ok filledClasses, fillingGraph) := by
  with_unfolding_all rfl

/-- An array without brackets would be private only as an index. -/
theorem classifyLoop_keepsArrays_iff_fillingGraph :
    (classifyLoop fillingLoop).runOn fillingGraph = (.ok filledClasses, fillingGraph) ∧
      ∀ v, v ∈ filledClasses.privates ∨ v ∈ filledClasses.lastPrivate → v.IsArray →
        ¬ v.IsBracketArray → fillingGraph.IndexBelow fillingLoop v.name := by
  obtain ⟨-, -, -, -, -, -, hbracket, -⟩ := classifyLoop_keepsArrays_iff runOn_classifyLoop_fillingLoop
  exact ⟨runOn_classifyLoop_fillingLoop, hbracket⟩

/-- An array that a loop fills becomes private, though it is no index. -/
theorem not_keepsArrays_fillingGraph :
    (classifyLoop fillingLoop).runOn fillingGraph = (.ok filledClasses, fillingGraph) ∧
      ¬ filledClasses.KeepsArrays fillingGraph fillingLoop := by
  refine ⟨runOn_classifyLoop_fillingLoop, fun hkeeps => ?_⟩
  have harray : (filledVariable "a" "[100 x i32]*").IsArray := ⟨_, rfl, .inr (.inr ⟨"100 x i32]*".toList, rfl⟩)⟩
  have hindex := hkeeps (filledVariable "a" "[100 x i32]*") (.inr List.mem_cons_self) harray
  rw [← isLoopIndexBelow_iff] at hindex
  exact absurd hindex (by decide)

end ParallelPatterns
