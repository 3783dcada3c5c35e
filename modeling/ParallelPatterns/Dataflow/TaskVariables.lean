import ParallelPatterns.Dataflow.LoopVariables

/-!
# The variables of a task

When a node runs as a task, each of its variables is shared, private with or without its value
before the task, or the object of a dependence between tasks. The classes are found for memory
regions and then given back as the names that are known before the task.
-/

namespace ParallelPatterns

structure TaskVariables where
  firstPrivate : List Variable := []
  privates : List Variable := []
  shared : List Variable := []
  dependIn : List Variable := []
  dependOut : List Variable := []
  dependInOut : List Variable := []
  reduction : List String := []
  deriving Inhabited

inductive TaskClass where
  | firstPrivate
  | privates
  | shared
  | dependIn
  | dependOut
  | dependInOut
  | reduction
  deriving DecidableEq, Repr

/-- The surroundings of a task that the classification needs. -/
structure TaskContext where
  task : Node
  pattern : String
  incoming : List Edge
  outgoing : List Edge
  standalone : Bool
  left : List Node
  right : List Node
  units : List Node
  raw : List Edge
  war : List Edge
  waw : List Edge
  reverseRaw : List Edge
  reverseWar : List Edge
  loopLines : List LineId
  loopChildren : List Node

namespace Graph

variable (g : Graph)

def taskContext (task : Node) (pattern : String) (incoming outgoing : List Edge)
    (standalone : Bool) : Result TaskContext := do
  let left ← g.beside task false false
  let right ← g.beside task true false
  let units := g.subtreeUnits task
  let loops := (g.subtreeLoops task).filter (·.reduction) ++ (if task.reduction then [task] else [])
  return {
    task, pattern, incoming, outgoing, standalone, left, right, units
    raw := units.flatMap fun u => g.outDataOf u.id .readAfterWrite
    war := units.flatMap fun u => g.outDataOf u.id .writeAfterRead
    waw := units.flatMap fun u => g.outDataOf u.id .writeAfterWrite
    reverseRaw := units.flatMap fun u => g.inDataOf u.id .readAfterWrite
    reverseWar := units.flatMap fun u => g.inDataOf u.id .writeAfterRead
    loopLines := loops.map (·.start)
    loopChildren := loops.flatMap fun n => g.childrenOrCalled n.id }

def baseName (name : String) : String := (Text.cut "." name).1

def taskVariables (task : Node) (units : List Node) : VariableRegions :=
  let vars := g.variablesOf units
  match task.function? with
  | some b => vars.filter fun (v, _) =>
      v.name.any fun n => b.args.any fun a => a.name == some (baseName n)
  | none => vars

def writtenBefore (task : Node) : Bool :=
  let before := g.reachingIds [.successor] task.id
  (g.outDataOf task.id .readAfterWrite).any fun e => before.contains e.source

def isTaskIndex (c : TaskContext) (regions : List Region) : Bool :=
  (c.raw.filter (Access.concerns regions)).any fun e => g.isLoopIndex e.dep.var c.loopLines c.loopChildren

def isCombined (c : TaskContext) (v : Variable) : Result Bool :=
  if Text.has "GeometricDecomposition" c.pattern || Text.has "Pipeline" c.pattern then
    -- with no loop to look at, the reported reductions are not needed
    c.loopLines.anyM fun l => g.isReductionVariable l v.name
  else return false

def boundClass (c : TaskContext) (v : Variable) (regions : List Region) : Result (Option TaskClass) := do
  if Access.dependsInOut regions c.incoming c.outgoing then return some .dependInOut
  if Access.dependsIn regions c.incoming c.raw then return some .dependIn
  if Access.dependsOut regions c.reverseRaw c.outgoing then return some .dependOut
  let outside ← g.hasValueAt c.task v (Access.writtenIn regions c.raw c.waw c.left)
  if outside && Access.readOnly regions c.war c.waw c.reverseRaw then
    return some (if isGlobal v.name c.units then .shared else .firstPrivate)
  return none

def writtenClass (c : TaskContext) (v : Variable) (regions : List Region) : Result (Option TaskClass) := do
  if ← Access.writtenFirst v.name regions c.raw c.war c.reverseRaw c.reverseWar c.units then
    let scalar ← Access.isScalar v
    if scalar && (!c.standalone || !g.writtenBefore c.task) then
      return some (if Access.readIn regions c.raw c.war c.reverseRaw c.reverseWar c.right then .shared
        else .privates)
    return some .shared
  return none

def taskClassOf (c : TaskContext) (v : Variable) (regions : List Region) : Result (Option TaskClass) := do
  if g.isTaskIndex c regions then return some .privates
  if ← g.isCombined c v then return some .reduction
  match ← g.boundClass c v regions with
  | some k => return some k
  | none => g.writtenClass c v regions

def taskClasses (c : TaskContext) : Result (List (Variable × List Region × TaskClass)) :=
  (g.taskVariables c.task c.units).filterMapM fun e => do
    return (← g.taskClassOf c e.1 e.2).map fun k => (e.1, e.2, k)

def knownNames (known : VariableRegions) (classified : List (Variable × List Region × TaskClass))
    (k : TaskClass) : Result (List Variable) :=
  let regions := (classified.filter fun e => e.2.2 == k).flatMap fun e => e.2.1
  sortVariables ((known.filter fun e => e.2.any regions.contains).map (·.1))

/-- Sorts the variables of a task into their classes, given its surroundings. -/
def classifyIn (c : TaskContext) : Result TaskVariables := do
  let classified ← g.taskClasses c
  let known := g.variablesOf (← g.beside c.task false true)
  let names := (classified.filter fun e => e.2.2 == .reduction).map fun e => e.1.name
  if 2 ≤ names.length && names.any (·.isNone) then throw .wrongSort
  return {
    firstPrivate := ← knownNames known classified .firstPrivate
    privates := ← knownNames known classified .privates
    shared := ← knownNames known classified .shared
    dependIn := ← knownNames known classified .dependIn
    dependOut := ← knownNames known classified .dependOut
    dependInOut := ← knownNames known classified .dependInOut
    reduction := (names.map (·.getD "")).mergeSort fun a b => a ≤ b }

def classifyTask (task : Node) (pattern : String) (incoming outgoing : List Edge)
    (standalone : Bool) : Result TaskVariables := do
  g.classifyIn (← g.taskContext task pattern incoming outgoing standalone)

end Graph

end ParallelPatterns
