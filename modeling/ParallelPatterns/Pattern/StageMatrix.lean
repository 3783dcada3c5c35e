import ParallelPatterns.Dataflow.Variables
import ParallelPatterns.Decimal.Shortest

/-!
# Chains of stages

The children of a loop form a pipeline if each depends on the one before it and on none behind it.
How close a loop comes to that is measured by the correlation of its dependences with those of a
perfect chain. A matrix of dependences between stages may be simplified first: stages without
dependences are deleted, and stages with the same dependences are merged.
-/

namespace ParallelPatterns

def dot (a b : List Float) : Float := (a.zip b).foldl (fun s p => s + p.1 * p.2) 0

def norm (a : List Float) : Float := (dot a a).sqrt

/-- The correlation of two vectors: their scalar product over the product of their lengths, or zero
if a length is zero. -/
def correlation (a b : List Float) : Result Measure :=
  let product := norm a * norm b
  if product == 0 then .ok (.whole 0)
  else if a.length != b.length then .error .notANumber
  else .ok (.real (dot a b / product))

/-- The number rounded to a number of places by scaling: a half goes to the even neighbour. -/
def roundScaled (places : Nat) (x : Float) : Float :=
  let scale := Float.ofNat (Nat.pow 10 places)
  match Decimal.parts (x * scale) with
  | .finite b =>
    let n := Float.ofNat (b.scaled 0)
    (if b.negative then -n else n) / scale
  | _ => x

def Measure.round (places : Nat) : Measure → Measure
  | .whole n => .whole n
  | .real x => .real (roundScaled places x)

def Measure.less (a b : Measure) : Bool := a.toFloat < b.toFloat

def Measure.text : Measure → String
  | .whole n => toString n
  | .real x => Decimal.shortest x

abbrev StageMatrix := List (List Int)

namespace StageMatrix

variable (m : StageMatrix)

def entry (i j : Nat) : Result Int := (m[i]?.bind (·[j]?)).getDM (.error .outOfRange)

def independent : Result (List Nat) :=
  (List.range m.length).filterM fun i => do
    let connected ← (List.range m.length).filterM fun j => do
      if i == j then return false
      if (← m.entry i j) != 0 then return true
      return (← m.entry j i) != 0
    return connected.isEmpty

/-- The stages, from the last on, with the same row as the stage before and the same column below
the first row. -/
def mergeable : Result (List Nat) :=
  ((List.range m.length).drop 1).reverse.filterM fun i => do
    if m[i]? != m[i - 1]? then return false
    let different ← ((List.range m.length).drop 1).filterM fun j => do
      return (← m.entry j i) != (← m.entry j (i - 1))
    return different.isEmpty

/-- The place that an index denotes in a list of a length; a negative one counts from the end. -/
def placeOf (length : Nat) (i : Int) : Result Nat :=
  let k := if i < 0 then i + length else i
  if 0 ≤ k && k < length then .ok k.toNat else .error .outOfRange

def deleteAt {α : Type} (xs : List α) (i : Int) : Result (List α) := do
  return xs.eraseIdx (← placeOf xs.length i)

def deleteLine {α : Type} (s : StageMatrix × List α) (i : Int) : Result (StageMatrix × List α) := do
  let stages ← deleteAt s.2 i
  let m ← deleteAt s.1 i
  return (← m.mapM fun row => deleteAt row i, stages)

def deleteLines {α : Type} (m : StageMatrix) (stages : List α) (lines : List Int) :
    Result (StageMatrix × List α) := (lines.mergeSort fun a b => b ≤ a).foldlM deleteLine (m, stages)

/-- The least weight of a backward dependence, one if there is none: dependences over longer
distances weigh less. -/
def leastWeight (stages : Nat) (backward : Nat → Nat → Result Bool) : Result Float :=
  (List.range (stages - 1)).foldlM (fun w i =>
    ((List.range stages).drop (i + 1)).foldlM (fun w j => do
      if ← backward i j then
        let weight : Float := 1.0 - Float.ofNat (j - i) / Float.ofNat (stages - 1)
        return if weight < w && 0.0 < weight then weight else w
      else return w) w) 1.0

/-- The correlation of the forward dependences with a perfect chain; a backward dependence adds a
component of its weight. -/
def chainCorrelation (forward : List Float) (weight : Float) : Result Measure :=
  let perfect := forward.map fun _ => 1.0
  if weight == 1.0 then correlation (forward ++ [0.0]) (perfect ++ [0.0])
  else correlation (forward ++ [1.0]) (perfect ++ [weight])

/-- How close a matrix comes to that of a pipeline, in hundredths. -/
def coefficient : Result Measure := do
  let forward ← (List.range (m.length - 1)).mapM fun i => do return Float.ofInt (← m.entry (i + 1) i)
  let weight ← leastWeight m.length fun i j => do return (← m.entry i j) == 1
  return (← chainCorrelation forward weight).round 2

end StageMatrix

namespace Graph

/-- Can a child of a loop be a stage? A child on the first or last line of the loop alone, or on the
first line of an inner loop, cannot. -/
def isStage (root child : Node) (lines : List LineId) : Bool :=
  !((child.start == root.start && child.finish == root.start) ||
    (child.start == root.finish && child.finish == root.finish) ||
    (child.start == child.finish && lines.contains child.start))

def stages (g : Graph) (root : Node) : List Node :=
  let lines := (g.subtreeLoops root).map (·.start)
  (g.childrenOrCalled root.id).filter fun c => isStage root c lines

def stageMatrix (g : Graph) (root : Node) (stages : List Node) : StageMatrix :=
  let view := g.loopView root
  stages.map fun a => stages.map fun b => if g.dependsIn view a b then 1 else 0

def pipelineCoefficient (g : Graph) (root : Node) : Result Measure := do
  let stages := g.stages root
  if stages.length < 2 then return .whole 0
  let view := g.loopView root
  let depends (i j : Nat) : Bool :=
    match stages[i]?, stages[j]? with
    | some a, some b => g.dependsIn view a b
    | _, _ => false
  let forward := (List.range (stages.length - 1)).map fun i => if depends (i + 1) i then 1.0 else 0.0
  let weight ← StageMatrix.leastWeight stages.length fun i j => .ok (depends i j)
  StageMatrix.chainCorrelation forward weight

end Graph

/-- The outcome of simplifying the stages of all loops. -/
structure StageReport where
  /-- The number of loops that are no perfect pipelines. -/
  total : Nat := 0
  before : List Measure := []
  after : List Measure := []
  lines : List String := []
  deriving Inhabited

abbrev Reporting := ExceptT Failure (StateM StageReport)

namespace StageReport

def rowText (row : List Int) : String := " ".intercalate (row.map toString)

def improvementLines (root : Node) (initial new : Measure) (independent mergeable : List Nat)
    (first second third : StageMatrix) : List String :=
  let sorted (xs : List Nat) : String := " ".intercalate ((xs.mergeSort fun a b => a ≤ b).map toString)
  ["Pipeline improvement opportunity:", "Node: " ++ root.id,
    "Lines: " ++ root.start ++ "-" ++ root.finish, "Independent lines:", sorted independent,
    "Similar nodes:", sorted mergeable, "matrix before: " ++ initial.text] ++ first.map rowText ++
  ["matrix after independent removed:"] ++ second.map rowText ++
  ["matrix after merged: " ++ new.text] ++ third.map rowText

def addLoop (g : Graph) (root : Node) : Reporting Unit := do
  let stages := g.stages root
  if stages.length < 3 then return
  let matrix := g.stageMatrix root stages
  let initial ← matrix.coefficient
  if initial.toFloat < 0.999 then modify fun r => { r with total := r.total + 1 }
  let independent ← matrix.independent
  let (reduced, stages) ← matrix.deleteLines stages (independent.map Int.ofNat)
  let mergeable ← reduced.mergeable
  let (merged, _) ← reduced.deleteLines stages (mergeable.map Int.ofNat)
  let new ← merged.coefficient
  if initial.less new then
    modify fun r => { r with
      before := r.before ++ [initial]
      after := r.after ++ [new]
      lines := r.lines ++ improvementLines root initial new independent mergeable matrix reduced merged }

/-- The text of the report on all loops. The numbers of earlier reports count, too, while their
lines are not repeated. -/
def text (g : Graph) (loops : List Node) : Reporting String := do
  modify fun r => { r with lines := [] }
  loops.forM (addLoop g)
  let r ← get
  let lines := r.lines ++ ["Total: " ++ toString r.total,
    " ".intercalate (r.before.map Measure.text), " ".intercalate (r.after.map Measure.text)]
  return String.join (lines.map (· ++ "\n"))

end StageReport

end ParallelPatterns
