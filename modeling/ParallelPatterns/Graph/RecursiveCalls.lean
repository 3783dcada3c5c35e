import ParallelPatterns.Files
import ParallelPatterns.Graph.Traversal

/-!
# Recursive calls that run more than once

A recursive call inside a loop, or of a function that is called several times within a function, may
run more than once. The report on such calls lists, with each call, the dependences among the nodes
below the unit that makes it.
-/

namespace ParallelPatterns

structure RecursiveCall where
  call : String
  dependences : List String
  deriving DecidableEq, Repr, Inhabited

def RecursiveCall.text (c : RecursiveCall) : String :=
  c.call ++ " " ++ String.join (c.dependences.map (· ++ ",")) ++ "\n"

namespace Graph

def callLine (call : String) : Result LineId :=
  lineId (Text.replace "," "" (Text.afterLast " " call))

def spans (line : LineId) (n : Node) : Result Bool := lineInRegion line n.start n.finish

variable (g : Graph)

def isCallInLoop (call : String) : Result Bool :=
  g.loops.anyM fun n => do spans (← callLine call) n

/-- The nodes below a function that lie inside its lines. -/
def withinGo (g : Graph) (f : Node) : Nat → List Node → List Node → Result (List Node)
  | 0, _, found => .ok found
  | _ + 1, [], found => .ok found
  | fuel + 1, n :: queue, found => do
    if (← spans n.start f) && (← spans n.finish f) then
      let found := if n.among found then found else found ++ [n]
      let queue := (g.childrenOrCalled n.id).foldl (fun (queue : List Node) c =>
        if c.among queue || c.among found then queue else queue ++ [c]) queue
      withinGo g f fuel queue found
    else withinGo g f fuel queue found

def recursiveNames (ns : List Node) : List String :=
  (ns.flatMap (·.recursiveCalls)).filterMap fun c => c.map fun c => (Text.cut " " c).1

def isCalledRepeatedly (call : String) : Result Bool :=
  g.functions.anyM fun f => do
    if !(← spans (← callLine call) f) then return false
    let names := recursiveNames (← g.withinGo f (g.edgeCount + 2) [f] [])
    return names.count (Text.cut " " call).1 > 1

def dependencesAmong (ids : List NodeId) (target : NodeId) (k : DependenceKind) : List String :=
  (g.inDataOf target k).filterMap fun e =>
    match e.dep.sinkLine, e.dep.sourceLine, e.dep.var with
    | some sink, some source, some var =>
      if ids.contains e.source then some (sink ++ "|" ++ k.name ++ "|" ++ source ++ "|" ++ var) else none
    | _, _, _ => none

/-- Adds the identifiers of a node and of those below it to what has been found, child by child.
Nothing bounds the recursion: the result is `none` if it has no end. -/
def collectIds (g : Graph) (id : NodeId) (found : List NodeId) : Option (List NodeId) :=
  if found.contains id then some found
  else ((g.childrenOrCalled id).map (·.id)).foldlM (fun found c => do
    return addAll found (← g |>.collectIds c found)) (found ++ [id])
partial_fixpoint

def repeatedCallsOf (n : Node) : Result (List RecursiveCall) := do
  let calls ← (n.recursiveCalls.filterMap id).filterM fun call => do
    let inLoop ← g.isCallInLoop call
    let repeated ← g.isCalledRepeatedly call
    return inLoop || repeated
  let ids := (g.collectIds n.id []).getD []
  let units := ids.filter fun id => (g.node? id).any (·.isUnit)
  let dependences := units.flatMap fun id =>
    [DependenceKind.readAfterWrite, .writeAfterRead, .writeAfterWrite].flatMap (g.dependencesAmong ids id)
  return calls.map fun call => { call, dependences }

def repeatedCalls : Result (List RecursiveCall) := do
  return (← g.units.mapM g.repeatedCallsOf).flatten

def recursionReportName : String := "Data_CUInst.txt"

def writeRecursionReport (files : Files) (directory : String) : Result Files := do
  let path := (if Text.ends "/" directory then directory else directory ++ "/") ++ recursionReportName
  let _ ← files.write path ""
  files.write path (String.join ((← g.repeatedCalls).map (·.text)))

end Graph

end ParallelPatterns
