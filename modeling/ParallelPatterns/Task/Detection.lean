import ParallelPatterns.Dataflow.TaskVariables
import ParallelPatterns.Task.Ancestry
import ParallelPatterns.Task.Suggestion

/-!
# First suggestions

Barriers wait for tasks before their first dependence; recursive calls inside workers run as tasks.
Around the outermost call that may create tasks stands a parallel region. The lines of a unit with
several suggestions are shared out among them.
-/

namespace ParallelPatterns

/-- Where a barrier waits: on the last of its dependent lines that precede its end, or at its end.
Line numbers are compared as texts. -/
def Graph.waitLine (g : Graph) (n : Node) : Result LineId := do
  let last := toString n.endLine
  (g.outData n.id).foldlM (fun best e =>
    match e.dep.sinkLine with
    | none => .error .missingProperty
    | some line =>
      match Text.cut ":" line with
      | (_, some number) => .ok (if number < last then line else best)
      | (_, none) => .error .absentText) n.finish

abbrev SuggestionsByLine := Table String (List Nat)

namespace Planning

def suggestWaits (t : SuggestionsByLine) : Planning SuggestionsByLine := do
  let g ← graph
  (g.allNodes.filter fun n => n.role == .barrier).foldlM (fun t n => do
    let line ← lift (g.waitLine n)
    let s ← newTask n .taskwait ["taskwait"] line [] [] []
    return t.update n.start [] (· ++ [s])) t

def suggestCall (workers : List Node) (n : Node) (call : String) (t : SuggestionsByLine) :
    Planning SuggestionsByLine := do
  let inside ← lift (Graph.innermostAround call workers)
  let line := Text.replace " " "" (Text.replace "," "" (lineOf call))
  let isWorker := inside.role == .worker || inside.role == .barrierWorker
  if !(inside.isFunction || (inside.isUnit && isWorker)) then return t
  let c ← query fun g => g.classifyTask inside "" [] [] true
  let names (vs : List Variable) : List String := vs.map fun v => v.name.getD ""
  let s ← newTask n .task ["task"] line (names c.firstPrivate) (names c.privates) (names c.shared)
  return t.update line [] (· ++ [s])

def detectTasks : Planning (List Nat) := do
  let g ← graph
  let withRole (r : WorkRole) : List Node := g.allNodes.filter fun n => n.role == r
  let workers := withRole .worker ++ withRole .barrierWorker ++ g.functions
  let t ← suggestWaits ∅
  let calls := g.allNodes.flatMap fun n => (n.recursiveCalls.filterMap id).map fun c => (n, c)
  let t ← calls.foldlM (fun t (n, c) => suggestCall workers n c t) t
  return t.values.flatten

def needKinds : Planning Unit := do
  if (← currentSuggestions).any fun s => s.2.omittable?.isSome then throw .missingProperty

end Planning

def Graph.outermostGo (g : Graph) : Nat → List (Node × Node) → List (Node × Node) →
    Result (List (Node × Node))
  | 0, _, _ => .error .endless
  | _ + 1, [], found => .ok found
  | fuel + 1, (f, last) :: queue, found =>
    match g.parentsOf f .function .child false with
    | [] => g.outermostGo fuel queue (found ++ [(f, last)])
    | above => g.outermostGo fuel (queue ++ above.filter fun p => !p.1.among (found.map (·.1))) found

namespace Planning

/-- Suggests parallel regions around the outermost calls that may create tasks. -/
def detectRegions : Planning (List Nat) := do
  needKinds
  let g ← graph
  let tasks ← (← tasksOf .task).mapM task
  let nodes ← tasks.mapM fun t => node t.node
  let pairs := nodes.flatMap fun n => g.parentsOf n .function .child false
  let start := pairs.foldl (fun (ps : List (Node × Node)) p =>
    if ps.any fun q => q.1.alike p.1 && q.2.alike p.2 then ps else ps ++ [p]) []
  let outer ← lift (g.outermostGo (Nat.pow (g.size + 1) 3) start [])
  outer.mapM fun (f, last) => add (.region {
    node := f.id, first := f.start, last := f.finish, regionStart := some last.start
    regionEnd := some last.finish })

def setRegionEnds : List Nat → Planning Unit
  | [] => pure ()
  | n :: rest => do
    let last ← match rest with
      | next :: _ => do pure (toString ((← lift (number (← task next).regionStart)) - 1))
      | [] => do pure (lineOf (← task n).last)
    modifyTask n fun t => { t with regionEnd := some last }
    setRegionEnds rest

def shareLines : Planning Unit := do
  let all ← currentSuggestions
  let tasks := all.filterMap fun (n, s) => s.task?.map fun t => (n, t)
  let byNode : Table NodeId (List (Nat × TaskSuggestion)) :=
    tasks.foldl (fun t s => t.update s.2.node [] (· ++ [s])) ∅
  let sorted := byNode.values.map fun ss =>
    (ss.mergeSort fun a b => !(b.2.regionStart < a.2.regionStart)).map (·.1)
  for ns in sorted do setRegionEnds ns
  setCurrent ((all.filter fun s => s.2.task?.isNone).map (·.1) ++ sorted.flatten)

end Planning

def Graph.reductionLoopAround (g : Graph) (n : Node) (first last : LineId) :
    Result (Option (ReductionRecord × Node)) := do
  let around ← (g.parentsOf n .loop .child false).filterM fun (loop, _) => do
    let start ← lineId (toString loop.startLine)
    let finish ← lineId (toString loop.endLine)
    let taskStart ← lineId (lineOf first)
    let taskFinish ← lineId (lineOf last)
    return !(taskStart < start) && !(finish < taskFinish)
  match around.find? fun p => p.1.reduction with
  | none => return none
  | some (loop, _) => do
    return ((← g.reductionList).find? fun r => r.loopLine == loop.start).map fun r => (r, loop)

namespace Planning

def detectTaskloops : Planning Unit := do
  let kept ← (← currentSuggestions).filterMapM fun (i, s) => do
    match s with
    | .task t =>
      if t.kind ≠ .task then return none
      let n ← node t.node
      match ← query fun g => g.reductionLoopAround n t.first t.last with
      | none => return some i
      | some (r, loop) =>
        let clause := "reduction(" ++ r.operation ++ ":" ++ Text.replace ".addr" "" r.name ++ ")"
        modifyTask i fun t => { t with
          pragma := ["taskloop", clause], kind := .taskloop, line := .written loop.start
          regionStart := loop.start, regionEnd := some loop.finish }
        return some i
    | _ => return some i
  setCurrent kept

end Planning

end ParallelPatterns
