import ParallelPatterns.Proofs.DoAll
import ParallelPatterns.Proofs.Position

/-!
# Do-all loops and the lines of their variables

A dependence of a do-all loop may be left out of account because its region belongs to a variable
that is defined inside of the loop. Where a definition stands is compared as a text. The variable is
one of the loop's file then, but its line lies inside of the loop only if its number of digits does:
here it is said exactly when the verdict can be trusted, and a loop is shown where it cannot.
-/

namespace ParallelPatterns

namespace Graph

/-- The loop, and the variables of the units below it, have positions of the form `file:line`. -/
structure Placed (g : Graph) (loop : Node) : Prop where
  file : 0 ≤ loop.file
  start : 0 ≤ loop.startLine
  finish : 0 ≤ loop.endLine
  definitions : ∀ v ∈ g.variablesOf (g.subtreeUnits loop),
    ∃ file line : Nat, v.1.defLine = some (position file line)

/-- A read, between units below a loop, of what another iteration may have written. -/
structure CarriedRead (g : Graph) (loop : Node) (e : Edge) : Prop extends g.DataBelow loop e where
  raw : e.dep.kind = some .readAfterWrite
  inter : e.dep.intraIteration = false

/-- The region of the dependence belongs to a variable of the loop's units that is defined on the
line of the loop's file. -/
def DefinedAt (g : Graph) (loop : Node) (d : Dependence) (line : Nat) : Prop :=
  ∃ r, d.region = some r ∧ ∃ v ∈ g.variablesOf (g.subtreeUnits loop),
    r ∈ v.2 ∧ v.1.defLine = some (position loop.file line)

/-- The memory of the dependence is only read in the body of the loop, or its variable is a loop
index. -/
def ReadOrIndex (g : Graph) (loop : Node) (d : Dependence) : Prop :=
  g.isReadOnlyInBody d (g.subtreeUnits loop) (g.headerLines loop) ∨
    g.isLoopIndex d.var (g.headerLines loop) (g.subtreeUnits loop)

instance (g : Graph) (loop : Node) (d : Dependence) : Decidable (g.ReadOrIndex loop d) :=
  inferInstanceAs (Decidable (_ ∨ _))

end Graph

namespace Node

variable (loop : Node)

/-- The written position of the line stands between those of the loop's first and last line. -/
def StandsInside (line : Nat) : Prop :=
  Graph.definedBetween (position loop.file line) loop.start loop.finish

instance (loop : Node) (line : Nat) : Decidable (loop.StandsInside line) :=
  inferInstanceAs (Decidable (_ = true))

/-- The line lies between the loop's first and last line. -/
def LiesInside (line : Nat) : Prop := loop.startLine ≤ line ∧ line ≤ loop.endLine

/-- The line has at least as many digits as the loop's first line, and at most as many as its last
line. -/
def FitsInside (line : Nat) : Prop :=
  digitCount loop.startLine.toNat ≤ digitCount line ∧ digitCount line ≤ digitCount loop.endLine.toNat

instance (loop : Node) (line : Nat) : Decidable (loop.FitsInside line) := inferInstanceAs (Decidable (_ ∧ _))

end Node

open ParallelPatterns.Graph

variable {g : Graph} (line : String) {loop : Node}

theorem Graph.Placed.liesInside_iff (h : g.Placed loop) {line : Nat}
    (hstands : loop.StandsInside line) : loop.LiesInside line ↔ loop.FitsInside line := by
  obtain ⟨file, first, last, hfile, hfirst, hlast⟩ := Node.exists_nat h.file h.start h.finish
  unfold Node.StandsInside Node.start Node.finish at hstands
  rw [hfile, hfirst, hlast] at hstands
  obtain ⟨-, hstart, hend⟩ := definedBetween_position_iff.1 hstands
  unfold Node.LiesInside Node.FitsInside
  rw [hfirst, hlast]
  simp [le_iff_digitCount_le hstart, le_iff_digitCount_le hend]

theorem Graph.Placed.definedAt_of_innerRegion (h : g.Placed loop) {d : Dependence}
    {r : Region} (hr : d.region = some r) (hinner : g.InnerRegion loop r) :
    ∃ line, g.DefinedAt loop d line ∧ loop.StandsInside line := by
  obtain ⟨file, first, last, hfile, hfirst, hlast⟩ := Node.exists_nat h.file h.start h.finish
  obtain ⟨v, hv, ⟨text, htext, hbetween⟩, hregion⟩ := hinner
  obtain ⟨otherFile, line, hposition⟩ := h.definitions v hv
  obtain rfl : position otherFile line = text := Option.some.inj (hposition.symm.trans htext)
  have hsame : otherFile = file := by
    unfold Node.start Node.finish at hbetween
    rw [hfile, hfirst, hlast] at hbetween
    exact (definedBetween_position_iff.1 hbetween).1
  have hloopFile : (otherFile : Int) = loop.file := by rw [hsame, hfile]
  rw [hloopFile] at hposition hbetween
  exact ⟨line, ⟨r, hr, v, hv, hregion, hposition⟩, hbetween⟩

/-- In a do-all loop, a read of what another iteration may have written is of memory that is only
read in the body, or of a loop index, or of a variable whose position is one of the loop's file and
stands inside of the loop. That the variable's line lies inside of the loop holds exactly for one
whose digits fit, apart from lines that lie inside although they do not stand inside. -/
theorem doAll_carriedRead_iff {g : Graph} (hg : g.WellFormed) {loop : Node} (hloop : g.node? loop.id = some loop)
    (hkind : loop.isLoop = true) (hplaced : g.Placed loop) {g' : Graph}
    (hrun : (isDoAllLoop loop).runOn g = (.ok true, g')) {e : Edge} (he : g.CarriedRead loop e) :
    (g.ReadOrIndex loop e.dep ∨ ∃ line, g.DefinedAt loop e.dep line ∧ loop.StandsInside line) ∧
      (g.ReadOrIndex loop e.dep ∨ (∃ line, g.DefinedAt loop e.dep line ∧ loop.LiesInside line) ↔
        g.ReadOrIndex loop e.dep ∨ ∃ line, g.DefinedAt loop e.dep line ∧
          (loop.StandsInside line ∧ loop.FitsInside line ∨
            ¬ loop.StandsInside line ∧ loop.LiesInside line)) := by
  constructor
  · rcases exempt_of_isDoAllLoop hg hloop hkind hrun he.toDataBelow he.raw he.inter with h | h | ⟨r, hr, hinner⟩
    · exact .inl (.inl h)
    · exact .inl (.inr h)
    · exact .inr (hplaced.definedAt_of_innerRegion hr hinner)
  · have hline : ∀ line, loop.LiesInside line ↔ loop.StandsInside line ∧ loop.FitsInside line ∨
        ¬ loop.StandsInside line ∧ loop.LiesInside line := by
      intro line
      by_cases hstands : loop.StandsInside line
      · rw [hplaced.liesInside_iff hstands]
        simp [hstands]
      · simp [hstands]
    simp only [← hline]

/-- A loop on the lines 10 to 60. -/
def countingLoop : Node :=
  { id := "1:1", file := 1, number := 1, startLine := 10, endLine := 60, name := none,
    parentFunction := some "1:0", body := .loop {} }

/-- On line 20, an iteration reads what another one wrote. -/
def countingRead : Edge where
  source := "1:2"
  target := "1:2"
  key := 0
  dep :=
    { edge := .data, kind := some .readAfterWrite, var := some "x", region := some "r",
      sourceLine := some "1:20", sinkLine := some "1:20" }

/-- The loop counts in a variable that is defined on the given line. -/
def countingGraph (line : String) : Graph where
  nodes :=
    let x : Variable := { type := some "i32", name := some "x", defLine := some line, size := 4 }
    ⟨[("1:0", { id := "1:0", file := 1, number := 0, startLine := 1, endLine := 70, name := some "f",
                body := .function {} }),
      ("1:1", countingLoop),
      ("1:2", { id := "1:2", file := 1, number := 2, startLine := 20, endLine := 20, name := none,
                parentFunction := some "1:0", body := .unit { locals := [x] } })]⟩
  links :=
    [⟨"1:0", "1:1", [(0, { edge := .child })]⟩, ⟨"1:1", "1:2", [(0, { edge := .child })]⟩,
      ⟨"1:2", "1:2", [(0, countingRead.dep)]⟩]

theorem wellFormed_countingGraph : (countingGraph line).WellFormed :=
  .of_entries (by simp [countingGraph, countingLoop]) (by simp [countingGraph, Table.contains])

theorem carriedRead_countingRead : (countingGraph line).CarriedRead countingLoop countingRead where
  edge := by simp [countingGraph, edges, Table.keys, outEdges, Link.toEdges, countingRead]
  data := rfl
  source := List.mem_singleton.2 rfl
  target := List.mem_singleton.2 rfl
  raw := rfl
  inter := rfl

theorem placed_countingGraph (line : Nat) : (countingGraph (position 1 line)).Placed countingLoop where
  file := by decide
  start := by decide
  finish := by decide
  definitions v hv := by
    obtain rfl := List.mem_singleton.1 hv
    exact ⟨1, line, rfl⟩

theorem definedAt_countingGraph_iff {line line' : Nat} :
    (countingGraph (position 1 line)).DefinedAt countingLoop countingRead.dep line' ↔ line = line' := by
  constructor
  · rintro ⟨r, -, v, hv, -, hposition⟩
    rw [List.mem_singleton.1 hv] at hposition
    exact (position_injective (Option.some.inj hposition)).2
  · rintro rfl
    exact ⟨"r", rfl, _, List.mem_singleton.2 rfl, List.mem_singleton.2 rfl, rfl⟩

/-- A variable that is defined on line 20 is defined inside of the loop. -/
theorem doAll_carriedRead_iff_countingGraph :
    (isDoAllLoop countingLoop).runOn (countingGraph (position 1 20)) =
        (.ok true, ((isDoAllLoop countingLoop).runOn (countingGraph (position 1 20))).2) ∧
      ((countingGraph (position 1 20)).ReadOrIndex countingLoop countingRead.dep ∨
        ∃ line, (countingGraph (position 1 20)).DefinedAt countingLoop countingRead.dep line ∧
          countingLoop.LiesInside line) := by
  obtain ⟨-, hsound⟩ := doAll_carriedRead_iff (wellFormed_countingGraph _) rfl rfl (placed_countingGraph 20) rfl
    (carriedRead_countingRead _)
  exact ⟨rfl, hsound.2 (.inr ⟨20, definedAt_countingGraph_iff.2 rfl, .inl ⟨by decide, by decide⟩⟩)⟩

/-- A variable that is defined on line 5, before the loop, counts as defined inside of it: the loop
is a do-all loop, although each iteration reads what another one wrote. -/
theorem isDoAllLoop_countingGraph :
    (countingGraph (position 1 5)).CarriedRead countingLoop countingRead ∧
      ((isDoAllLoop countingLoop).runOn (countingGraph (position 1 5))).1 = .ok true ∧
      ¬ ((countingGraph (position 1 5)).ReadOrIndex countingLoop countingRead.dep ∨
        ∃ line, (countingGraph (position 1 5)).DefinedAt countingLoop countingRead.dep line ∧
          countingLoop.LiesInside line) := by
  refine ⟨carriedRead_countingRead _, rfl, ?_⟩
  rintro (h | ⟨line, hdefined, hlies⟩)
  · exact absurd h (by decide +kernel)
  · obtain rfl := definedAt_countingGraph_iff.1 hdefined
    exact absurd hlies.1 (by decide)

end ParallelPatterns
