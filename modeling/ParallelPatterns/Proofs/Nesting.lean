import ParallelPatterns.Proofs.Subtree

/-!
# Nesting levels

The level of a loop is taken from the level of the loop around it, which is taken from the next one,
up to the function. Nothing is added on the way: where a level is found, it is that of an outermost
loop. So it counts the loops around a loop exactly if there are none.
-/

namespace ParallelPatterns.Graph

open List

variable {g : Graph} {id : NodeId} {around : List NodeId} {levels : List Int}

/-- The node lies in a tree below a function in which every loop has one parent, a function or a
loop. The list holds the loops around the node, the innermost first. -/
inductive Enclosed (g : Graph) : NodeId → List NodeId → Prop
  | outermost {id parent : NodeId} {function : Node} (only : ∀ p, p ∈ g.parentIds id ↔ p = parent)
      (known : g.node? parent = some function) (kind : function.isFunction) : Enclosed g id []
  | inner {id parent : NodeId} {loop : Node} {around : List NodeId} (only : ∀ p, p ∈ g.parentIds id ↔ p = parent)
      (known : g.node? parent = some loop) (kind : loop.isLoop) (outer : Enclosed g parent around) :
      Enclosed g id (parent :: around)

theorem isFunction_eq_false_of_isLoop {n : Node} (h : n.isLoop) : n.isFunction = false := by
  rw [Node.isLoop, beq_iff_eq] at h
  rw [Node.isFunction, h]
  rfl

/-! ## One level for all loops -/

theorem largest_eq_ok_zero (hne : levels ≠ []) (hzero : ∀ l ∈ levels, l = 0) : largest levels = .ok 0 := by
  rw [eq_replicate_of_mem hzero, largest, max?_replicate_of_pos (length_pos_iff.2 hne)]
  rfl

theorem smallest_eq_ok_two (hne : levels ≠ []) (hzero : ∀ l ∈ levels, l = 0) :
    smallest (levels.map fun l => max 0 (2 - l)) = .ok 2 := by
  rw [eq_replicate_of_mem hzero, smallest, map_replicate,
    min?_replicate_of_pos (length_pos_iff.2 hne)]
  rfl

theorem exists_largest (hne : levels ≠ []) : ∃ l, largest levels = .ok l := by
  obtain ⟨l, ls, rfl⟩ := exists_cons_of_ne_nil hne
  exact ⟨_, by rw [largest]; rfl⟩

theorem exists_smallest (hne : levels ≠ []) : ∃ l, smallest levels = .ok l := by
  obtain ⟨l, ls, rfl⟩ := exists_cons_of_ne_nil hne
  exact ⟨_, by rw [smallest]; rfl⟩

variable {l : Int} {fuel : Nat}

theorem ne_nil_of_largest (h : largest levels = .ok l) : levels ≠ [] := by
  rintro rfl
  cases h

theorem ne_nil_of_smallest (h : smallest levels = .ok l) : levels ≠ [] := by
  rintro rfl
  cases h

theorem eq_zero_of_levelsFrom {levelOf : NodeId → Result Int} (hlevel : ∀ p l, levelOf p = .ok l → l = 0)
    {parents : List NodeId} (h : g.levelsFrom levelOf parents = .ok levels) : ∀ l ∈ levels, l = 0 := by
  fun_induction levelsFrom g levelOf parents generalizing levels with
  | case1 => cases h; simp
  | case2 p ps _ ih => exact ih h
  | case3 => cases h; simp
  | case4 p ps n _ _ _ ih =>
    obtain ⟨l, hl, h⟩ := bind_eq_ok_iff.1 h
    obtain ⟨rest, hrest, h⟩ := bind_eq_ok_iff.1 h
    cases h
    have hfirst : min 2 l = 0 := by
      rw [hlevel p l hl]
      rfl
    simpa [hfirst] using ih hrest
  | case5 p ps n _ _ _ ih => exact ih h

theorem eq_zero_of_parentLevels (h : g.parentLevels fuel id = .ok levels) : ∀ l ∈ levels, l = 0 := by
  induction fuel generalizing id levels with
  | zero => cases h
  | succ fuel ih =>
    refine eq_zero_of_levelsFrom ?_ h
    intro p l hl
    obtain ⟨parents, hparents, hl⟩ := bind_eq_ok_iff.1 hl
    rw [largest_eq_ok_zero (ne_nil_of_largest hl) (ih hparents)] at hl
    exact (Except.ok.inj hl).symm

theorem eq_of_nestingLevel {inverted : Bool} (h : g.nestingLevel id inverted = .ok l) :
    l = if inverted then 2 else 0 := by
  obtain ⟨levels, hlevels, h⟩ := bind_eq_ok_iff.1 h
  have hzero := eq_zero_of_parentLevels hlevels
  cases inverted with
  | false =>
    have hne := ne_nil_of_largest h
    exact Except.ok.inj (h.symm.trans (largest_eq_ok_zero hne hzero))
  | true =>
    have hne : levels ≠ [] := fun hnil => ne_nil_of_smallest h (by rw [hnil]; rfl)
    exact Except.ok.inj (h.symm.trans (smallest_eq_ok_two hne hzero))

/-! ## Loops in a tree have a level -/

namespace Enclosed

variable (h : g.Enclosed id around)
include h

theorem unique {around' : List NodeId} (h' : g.Enclosed id around') : around = around' := by
  induction h generalizing around' with
  | outermost only known kind =>
    cases h' with
    | outermost => rfl
    | inner only' known' kind' =>
      obtain rfl := (only' _).1 ((only _).2 rfl)
      rw [known] at known'
      cases known'
      rw [isFunction_eq_false_of_isLoop kind'] at kind
      cases kind
  | inner only known kind outer ih =>
    cases h' with
    | outermost only' known' kind' =>
      obtain rfl := (only' _).1 ((only _).2 rfl)
      rw [known] at known'
      cases known'
      rw [isFunction_eq_false_of_isLoop kind] at kind'
      cases kind'
    | inner only' known' kind' outer' =>
      obtain rfl := (only' _).1 ((only _).2 rfl)
      rw [ih outer']

theorem exists_shorter {p : NodeId} (hp : p ∈ around) :
    ∃ outer, g.Enclosed p outer ∧ outer.length < around.length := by
  induction h with
  | outermost => cases hp
  | @inner _ parent _ around _ _ _ outer ih =>
    rcases mem_cons.1 hp with rfl | hp
    · exact ⟨around, outer, by simp⟩
    · obtain ⟨beyond, hbeyond, hlt⟩ := ih hp
      exact ⟨beyond, hbeyond, by rw [length_cons]; omega⟩

theorem notMem : id ∉ around := by
  intro hmem
  obtain ⟨outer, houter, hlt⟩ := h.exists_shorter hmem
  rw [h.unique houter] at hlt
  omega

theorem nodup : around.Nodup := by
  induction h with
  | outermost => exact nodup_nil
  | inner _ _ _ outer ih => exact nodup_cons.2 ⟨outer.notMem, ih⟩

theorem subset_keys : around ⊆ g.nodes.keys := by
  induction h with
  | outermost => exact nil_subset _
  | inner _ known _ _ ih => exact cons_subset.2 ⟨mem_keys_iff.2 (by rw [known]; rfl), ih⟩

theorem length_le_size : around.length ≤ g.size := by
  have hle := (h.nodup.subperm h.subset_keys).length_le
  simpa [Table.keys, size] using hle

theorem exists_parentLevels (hfuel : around.length < fuel) :
    ∃ levels, g.parentLevels fuel id = .ok levels ∧ levels ≠ [] := by
  induction h generalizing fuel with
  | @outermost id parent f only known kind =>
    obtain ⟨fuel, rfl⟩ := Nat.exists_eq_succ_of_ne_zero (Nat.ne_of_gt hfuel)
    obtain ⟨p, ps, hparents⟩ := exists_cons_of_ne_nil (ne_nil_of_mem ((only parent).2 rfl))
    obtain rfl := (only p).1 (by simp [hparents])
    simp [parentLevels, hparents, levelsFrom, known, kind]
  | @inner id parent loop around only known kind outer ih =>
    obtain ⟨fuel, rfl⟩ := Nat.exists_eq_succ_of_ne_zero (Nat.ne_zero_of_lt hfuel)
    obtain ⟨levels, hlevels, hne⟩ := ih (Nat.lt_of_succ_lt_succ hfuel)
    have hlevel : (do largest (← g.parentLevels fuel parent)) = .ok 0 := by
      rw [hlevels]
      exact largest_eq_ok_zero hne (eq_zero_of_parentLevels hlevels)
    -- the one parent may be named more than once
    have hall : ∀ ps : List NodeId, (∀ p ∈ ps, p = parent) →
        g.levelsFrom (fun p => do largest (← g.parentLevels fuel p)) ps = .ok (replicate ps.length 0) := by
      intro ps hps
      induction ps with
      | nil => rfl
      | cons p ps hrest =>
        obtain rfl := hps p (by simp)
        rw [levelsFrom, known]
        simp only [isFunction_eq_false_of_isLoop kind, kind, hlevel, hrest fun q hq => hps q (by simp [hq])]
        rfl
    refine ⟨_, hall (g.parentIds id) fun p hp => (only p).1 hp, ?_⟩
    have hlength := length_pos_of_mem ((only parent).2 rfl)
    simpa using Nat.ne_of_gt hlength

theorem exists_nestingLevel (inverted : Bool) : ∃ l, g.nestingLevel id inverted = .ok l := by
  obtain ⟨levels, hlevels, hne⟩ := h.exists_parentLevels (Nat.lt_succ_of_le h.length_le_size)
  rw [nestingLevel, hlevels]
  cases inverted with
  | false => exact exists_largest hne
  | true => exact exists_smallest (by simpa using hne)

theorem nestingLevel_eq (inverted : Bool) : g.nestingLevel id inverted = .ok (if inverted then 2 else 0) := by
  obtain ⟨l, hl⟩ := h.exists_nestingLevel inverted
  rw [hl, eq_of_nestingLevel hl]

end Enclosed

/-! ## What the level counts -/

/-- The level of a loop with the given number of loops around it, as it would be counted: up to 2
from the outermost loop on, or down from 2. -/
def countedLevel (loops : Nat) (inverted : Bool) : Int :=
  if inverted then max 0 (2 - (loops : Int)) else min 2 (loops : Int)

theorem countedLevel_eq_iff (loops : Nat) (inverted : Bool) :
    (if inverted then 2 else 0) = countedLevel loops inverted ↔ loops = 0 := by
  cases inverted with
  | false =>
    show 0 = min 2 (loops : Int) ↔ loops = 0
    omega
  | true =>
    show 2 = max 0 (2 - (loops : Int)) ↔ loops = 0
    omega

/-- A loop in a tree below a function has the level of an outermost loop, and so has the loop around
it. The level counts the loops around it exactly if there are none. -/
theorem nestingLevel_counts_iff (h : g.Enclosed id around) (inverted : Bool) :
    g.nestingLevel id inverted = .ok (if inverted then 2 else 0) ∧
      (∀ parent ∈ around, g.nestingLevel parent inverted = g.nestingLevel id inverted) ∧
      (g.nestingLevel id inverted = .ok (countedLevel around.length inverted) ↔ around = []) := by
  refine ⟨h.nestingLevel_eq inverted, ?_, ?_⟩
  · intro parent hparent
    obtain ⟨outer, houter, -⟩ := h.exists_shorter hparent
    rw [houter.nestingLevel_eq, h.nestingLevel_eq]
  · rw [h.nestingLevel_eq, Except.ok.injEq, countedLevel_eq_iff, length_eq_zero_iff]

/-- Two loops in a function, one inside of the other. -/
def nestedGraph : Graph where
  nodes :=
    let loop (id : NodeId) (number first last : Int) : NodeId × Node :=
      (id, { id, file := 1, number, startLine := first, endLine := last, name := none, parentFunction := some "1:0",
             body := .loop {} })
    ⟨[("1:0", { id := "1:0", file := 1, number := 0, startLine := 1, endLine := 9, name := some "main",
                body := .function {} }),
      loop "1:1" 1 2 8, loop "1:2" 2 3 7]⟩
  links := [⟨"1:0", "1:1", [(0, { edge := .child })]⟩, ⟨"1:1", "1:2", [(0, { edge := .child })]⟩]

theorem enclosed_outer_nestedGraph : nestedGraph.Enclosed "1:1" [] := by
  have honly : ∀ p, p ∈ nestedGraph.parentIds "1:1" ↔ p = "1:0" := fun _ => mem_singleton
  exact .outermost honly rfl rfl

theorem enclosed_inner_nestedGraph : nestedGraph.Enclosed "1:2" ["1:1"] :=
  .inner (fun _ => mem_singleton) rfl rfl enclosed_outer_nestedGraph

/-- The outermost loop has the level that is counted. -/
theorem nestingLevel_counts_outer :
    nestedGraph.Enclosed "1:1" [] ∧ nestedGraph.nestingLevel "1:1" true = .ok (countedLevel 0 true) :=
  ⟨enclosed_outer_nestedGraph, (nestingLevel_counts_iff enclosed_outer_nestedGraph true).2.2.2 rfl⟩

/-- The loop inside of it has the same level, and not the next lower one. -/
theorem nestingLevel_counts_inner :
    nestedGraph.Enclosed "1:2" ["1:1"] ∧
      nestedGraph.nestingLevel "1:2" false ≠ .ok (countedLevel 1 false) ∧
      nestedGraph.nestingLevel "1:2" true ≠ .ok (countedLevel 1 true) ∧
      nestedGraph.nestingLevel "1:2" true = nestedGraph.nestingLevel "1:1" true := by
  refine ⟨enclosed_inner_nestedGraph, ?_, ?_, ?_⟩
  all_goals rw [enclosed_inner_nestedGraph.nestingLevel_eq]
  · decide
  · decide
  · exact (enclosed_outer_nestedGraph.nestingLevel_eq true).symm

end ParallelPatterns.Graph
