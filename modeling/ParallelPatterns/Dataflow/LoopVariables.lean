import ParallelPatterns.Dataflow.Variables
import ParallelPatterns.Graph.Analysis

/-!
# The variables of a parallel loop

When the iterations of a loop run in parallel, each variable from outside of the loop is shared
between them, or private with or without its value before or after the loop, or combined by a
reduction. `classifyLoop` sorts the variables into these classes.
-/

namespace ParallelPatterns

/-- The classes of the variables of a parallel loop. -/
structure LoopVariables where
  firstPrivate : List Variable := []
  privates : List Variable := []
  lastPrivate : List Variable := []
  shared : List Variable := []
  reduction : List Variable := []
  deriving Inhabited

inductive LoopClass where
  | firstPrivate
  | privates
  | lastPrivate
  | shared
  | reduction
  deriving DecidableEq, Repr

namespace LoopVariables

def add (c : LoopVariables) (v : Variable) : LoopClass → LoopVariables
  | .firstPrivate => { c with firstPrivate := c.firstPrivate ++ [v] }
  | .privates => { c with privates := c.privates ++ [v] }
  | .lastPrivate => { c with lastPrivate := c.lastPrivate ++ [v] }
  | .shared => { c with shared := c.shared ++ [v] }
  | .reduction => { c with reduction := c.reduction ++ [v] }

def privateNames (c : LoopVariables) : List (Option String) :=
  (c.firstPrivate ++ c.privates ++ c.lastPrivate).map (·.name)

end LoopVariables

def sortVariables (vs : List Variable) : Result (List Variable) :=
  if 2 ≤ vs.length && vs.any (·.name.isNone) then .error .wrongSort
  else .ok (vs.mergeSort fun a b => a.name.getD "" ≤ b.name.getD "")

def LoopVariables.sorted (c : LoopVariables) : Result LoopVariables := do
  return {
    firstPrivate := ← sortVariables c.firstPrivate
    privates := ← sortVariables c.privates
    lastPrivate := ← sortVariables c.lastPrivate
    shared := ← sortVariables c.shared
    reduction := ← sortVariables c.reduction }

/-- The dependences around the units of a loop. -/
structure LoopAccesses where
  raw : List Edge
  war : List Edge
  waw : List Edge
  reverseRaw : List Edge

namespace Graph

def accessesOf (g : Graph) (units : List Node) : LoopAccesses where
  raw := units.flatMap fun u => g.outDataOf u.id .readAfterWrite
  war := units.flatMap fun u => g.outDataOf u.id .writeAfterRead
  waw := units.flatMap fun u => g.outDataOf u.id .writeAfterWrite
  reverseRaw := units.flatMap fun u => g.inDataOf u.id .readAfterWrite

/-- The parts of a loop's function that run before it, after it, and inside of it. -/
structure LoopContext where
  loop : Node
  left : List Node
  right : List Node
  units : List Node
  accesses : LoopAccesses

def scalarClass (g : Graph) (c : LoopContext) (v : Variable) (regions : List Region) :
    Result (Option LoopClass) := do
  let a := c.accesses
  let outside ← g.hasValueAt c.loop v (Access.writtenIn regions a.raw a.waw c.left)
  if outside && Access.readOnly regions a.war a.waw a.reverseRaw then
    return some (if isGlobal v.name c.units then .shared else .firstPrivate)
  if outside || Access.firstWritten regions a.raw a.war c.units then
    let read := Access.readInSubtree regions a.reverseRaw c.right
    return some (if ← Access.isScalar v then (if read then .lastPrivate else .privates) else .shared)
  return none

def classOf (g : Graph) (c : LoopContext) (v : Variable) (regions : List Region) :
    Result (Option LoopClass) := do
  if g.isLoopIndexBelow c.loop v.name then
    return some (if Access.readInSubtree regions c.accesses.reverseRaw c.right then .lastPrivate
      else .privates)
  if c.loop.reduction then
    if ← g.isReductionVariable c.loop.start v.name then return some .reduction
  g.scalarClass c v regions

def contextBetween (g : Graph) (loop : Node) (left right : List Node) : LoopContext :=
  let units := g.subtreeUnits loop
  { loop, left, right, units, accesses := g.accessesOf units }

def loopContext (g : Graph) (loop : Node) : Result LoopContext := do
  return g.contextBetween loop (← g.beside loop false false) (← g.beside loop true false)

/-- The variables from outside of a loop. Of their regions those count that are known before the
loop, without the functions called there, or that the loop initialises. -/
def classifiedVariables (g : Graph) (c : LoopContext) : Result VariableRegions := do
  let vars ← g.outsideVariables c.loop false
  let before ← g.beside c.loop false true
  let known := (g.variablesOf before).flatMap (·.2) ++ (g.initialised c.units).flatMap (·.2)
  return vars.map fun (v, rs) => (v, rs.filter known.contains)

end Graph

def classifyTurn (g : Graph) (c : Graph.LoopContext) (acc : LoopVariables)
    (e : Variable × List Region) : Analysis LoopVariables := do
  match ← Analysis.lift (g.classOf c e.1 e.2) with
  | none => return acc
  | some .reduction =>
    let sign ← Analysis.lift (g.reductionSign c.loop.start e.1.name)
    modify fun g => g.setOperator e.1 sign
    return acc.add e.1 .reduction
  | some k => return acc.add e.1 k

def classifyLoop (loop : Node) : Analysis LoopVariables := do
  let g ← Analysis.graph
  let c ← Analysis.lift (g.loopContext loop)
  let vars ← Analysis.lift (g.classifiedVariables c)
  Analysis.lift (← vars.foldlM (classifyTurn g c) {}).sorted

end ParallelPatterns
