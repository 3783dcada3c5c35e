import ParallelPatterns.Task.Detection

/-!
# Waiting for tasks

Which suggested waits are kept, and where waits are missing: before a function returns while its
tasks may still run, and before a node that shares global variables with a task.
-/

namespace ParallelPatterns

def Planning.markWait (id : NodeId) (waits : Bool) : Planning Unit :=
  modifyNode id fun n => { n with containsTaskwait := waits }

def waitAt (line : Int) : Result LineId := lineId (toString line)

namespace Planning

def detectBarriers : Planning Unit := do
  for i in ← tasksOf .task do
    modifyNode (← task i).node fun n => { n with containsTask := true }
  for i in ← tasksOf .taskwait do markWait (← task i).node true
  match (← graph).allNodes with
  | [] => throw .outOfRange
  | n :: _ => do
    let _ ← lift (waitAt n.startLine)
    return

end Planning

def Graph.dependenceCounts (g : Graph) (n : Node) : List Nat :=
  let before := (g.sources (g.inEdgesOf n.id [.successor])).filter fun p => !p.alike n
  let targets := (g.targets (g.outData n.id)).filter fun t => !t.alike n
  before.map fun p =>
    let nodes := (g.predecessorsOf p).1
    (targets.filter fun t => t.among nodes).length

namespace Planning

def validateBarriers : Planning Unit := do
  let waits ← tasksOf .taskwait
  let others ← numbersOf fun s => s.kind? ≠ some .taskwait
  let kept ← waits.filterM fun i => do
    let n ← node (← task i).node
    if n.isLoop then return true
    if ((← graph).dependenceCounts n).any (· > 1) then return true
    markWait n.id false
    return false
  setCurrent (others ++ kept)

end Planning

/-- How many nodes of each sort a node depends on: different tasks, different waits, different tasks
that units join, and all other nodes, of which each dependence counts. -/
structure DependenceSorts where
  tasks : Nat
  waits : Nat
  joined : Nat
  others : Nat

def countNodes (ns : List Node) : Nat :=
  (ns.foldl (fun (kept : List Node) n => if n.among kept then kept else n :: kept) []).length

namespace Planning

def nodesOf (f : Suggestion → Option NodeId) : Planning (List Node) := do
  (← currentSuggestions).filterMapM fun (_, s) => do
    match f s with
    | some id => return some (← node id)
    | none => return none

def nodesOfKind (k : TaskKind) : Planning (List Node) :=
  nodesOf fun s => (s.task?.filter fun t => t.kind == k).map (·.node)

def sortDependences (targets : List Node) : Planning DependenceSorts := do
  let tasks ← nodesOfKind .task
  let waits ← nodesOfKind .taskwait
  let joining := (← currentSuggestions).filterMap (·.2.omittable?)
  let joining ← joining.mapM fun o => do return (← node o.node, o.partner)
  let rest := targets.filter fun n => !n.among tasks
  let free := rest.filter fun n => !n.among waits
  let partner (n : Node) : Option NodeId := (joining.find? fun j => j.1.alike n).map (·.2)
  return {
    tasks := countNodes (targets.filter fun n => n.among tasks)
    waits := countNodes (rest.filter fun n => n.among waits)
    joined := (distinct (free.filterMap partner)).length
    others := (free.filter fun n => (partner n).isNone).length }

/-- What a unit depends on besides itself, sorted. -/
def sortAdjacent (g : Graph) (n : Node) : Planning DependenceSorts :=
  sortDependences ((g.targets (g.outData n.id)).filter fun m => m.id != n.id)

end Planning

/-- May a unit not join a task? It may not if it depends on more than itself and joining units
without a way of dependences to the task, or if it directly follows neither a joining unit nor a
task. -/
def Graph.hasOtherDependences (g : Graph) (task n : Node) : Bool :=
  let targets := (g.targets (g.outData n.id)).filter fun t => !t.alike n
  let before := g.sources (g.inEdgesOf n.id [.successor])
  targets.any (fun t => !t.omittable && !g.reachable task n [.data]) ||
    !before.any fun p => p.omittable || p.containsTask

def Graph.uncoveredReturn? (g : Graph) (n : Node) : Option Node :=
  let returns (m : Node) : Bool := m.unit?.any (·.returns > 0)
  let next (id : NodeId) : List NodeId :=
    match g.node? id with
    | none => []
    | some m =>
      if m.containsTaskwait || returns m then [] else ((g.successors id).map (·.id)).reverse
  (g.nodesAt (Search.reached next g.size n.id)).find? fun m => !m.containsTaskwait && returns m

namespace Planning

def isCovered (t : TaskSuggestion) : Planning Bool := do
  (← currentSuggestions).anyM fun (_, s) => do
    match s with
    | .region r =>
      match r.regionStart, r.regionEnd with
      | some first, some last => lift (lineInRegion t.first first last)
      | _, _ => throw .missingProperty
    | _ => return false

def coverReturns : Planning Unit := do
  for i in ← tasksOf .task do
    let t ← task i
    if !(← isCovered t) then
      match (← graph).uncoveredReturn? (← node t.node) with
      | none => pure ()
      | some n =>
        markWait n.id true
        let _ ← lift (waitAt n.endLine)

/-- Follows the successors of a task up to waits and looks for a node with which it shares global
variables. A node with a task of its own ends the way. `queue` ends with the next node. -/
def coverGlobalsGo (t : TaskSuggestion) (taskNode : Node) : Nat → List NodeId → List Node → Planning Unit
  | 0, _, _ => pure ()
  | fuel + 1, queue, visited => do
    match queue.reverse with
    | [] => return
    | id :: rest =>
      let queue := rest.reverse
      let n ← node id
      if n.among visited then coverGlobalsGo t taskNode fuel queue visited
      else
        let visited := visited ++ [n]
        if n.containsTaskwait then coverGlobalsGo t taskNode fuel queue visited
        else
          if !n.globals.isEmpty && taskNode.unit?.isNone then throw .missingProperty
          let known := taskNode.globals.map (·.name)
          let common := (n.globals.map (·.name)).filter known.contains
          let stops := !common.isEmpty &&
            (n.containsTask || (t.names .dependOut).any fun v => !common.contains (some v))
          if stops then
            if !n.containsTask then
              markWait n.id true
              let _ ← lift (waitAt n.startLine)
            coverGlobalsGo t taskNode fuel queue visited
          else
            let next := ((← graph).successors id).filter fun m => !m.alike n
            coverGlobalsGo t taskNode fuel (distinct (queue ++ next.map (·.id))) visited

/-- Suggests waits before nodes that share global variables with a task. -/
def coverGlobals : Planning Unit := do
  for i in ← tasksOf .task do
    let t ← task i
    let n ← node t.node
    let g ← graph
    let next := (g.successors n.id).filter fun m => !m.alike n
    coverGlobalsGo t n (g.edgeCount + next.length + 1) (next.map (·.id)) [n]

def taskLines (tasks : List Nat) : Planning (List (Node × List DirectiveLine)) :=
  tasks.foldlM (fun (fs : List (Node × List DirectiveLine)) i => do
    let t ← task i
    let n ← node t.node
    let f ← query fun g => g.functionAbove n
    if fs.any fun p => p.1.alike f then
      return fs.map fun p => if p.1.alike f then (p.1, p.2 ++ [t.line]) else p
    else return fs ++ [(f, [t.line])]) []

def hasLineBefore (wait : String) : List DirectiveLine → Result Bool
  | [] => .ok false
  | .computed _ :: _ => .error .wrongSort
  | .written l :: rest => if !(wait < l) then .ok true else hasLineBefore wait rest

def dropUselessBarriers : Planning Unit := do
  needKinds
  let tasks ← tasksOf .task
  let waits ← tasksOf .taskwait
  let others ← numbersOf fun s => s.kind? ≠ some .taskwait && s.kind? ≠ some .task
  let functions ← taskLines tasks
  let kept ← waits.mapM fun i => do
    let t ← task i
    let line ← match t.line with
      | .computed _ => throw .missingProperty
      | .written l =>
        (Text.cut ":" l).2.getDM (throw .absentText)
    let n ← node t.node
    let hits ← functions.filterM fun (f, lines) => do
      if (← graph).reachable n f [.child] then lift (hasLineBefore line lines) else return false
    return hits.map fun _ => i
  setCurrent (others ++ tasks ++ kept.flatten)

end Planning

end ParallelPatterns
