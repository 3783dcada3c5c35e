import ParallelPatterns.Input.FlowFile
import ParallelPatterns.Task.CallAliases
import ParallelPatterns.Task.CallEffects

/-!
# Dependences between the calls of tasks

Two tasks that call different functions depend on each other if a variable that both know under some
name flows between the functions. Two tasks that call the same function depend on each other if they
give it the same argument and the first call writes it.
-/

namespace ParallelPatterns

/-- Names to add to a clause of each task. -/
abbrev NameUpdates := Table Nat (List String)

def NameUpdates.note (u : NameUpdates) (i : Nat) (names : List String) : NameUpdates :=
  if names.isEmpty then u else u.update i [] (· ++ names)

def DirectiveLine.inFile (l : DirectiveLine) : Result Int := do
  let s ← l.written?
  match Text.split ":" s with
  | _ :: line :: _ => number line
  | _ => number s

def Flows.reaches (flows : Flows) (x : LocalName) (sinks : List LineId) : Result Bool := do
  let sources ← linesBetween x.first x.last
  if sources == sinks then return false
  return sources.any fun l => (flows.getD l []).any fun (sink, var) => some var == x.name && sinks.contains sink

/-- The arguments of a task on which another task depends, by the aliases that both know. -/
def Flows.between (flows : Flows) (args : List (Option String)) (first second : List AliasClass) :
    Result (List String) := do
  let known := second.flatMap (·.all)
  let found ← (args.filterMap id).filterM fun arg =>
    (first.filter fun c => c.origin.name == some arg).anyM fun c => do
      let sinks ← linesBetween c.origin.first c.origin.last
      (c.all.filter known.contains).anyM fun x => flows.reaches x sinks
  return distinct found

namespace Planning

variable (p : Program)

def taskCalls (t : TaskSuggestion) (n : Node) :
    Planning (List (Option String × List (Option String))) := do
  let g ← graph
  let found ← (← lift (g.functionsAround n)).mapM fun _ => do
    match ← lift (p.taskCall? t) with
    | none => return none
    | some text => return some (← lift (do Source.callArguments p.demangler text (← firstCall n) n))
  return found.filterMap id

def precedes (t s : TaskSuggestion) : Planning Bool := do
  if (← node t.node).file ≠ (← node s.node).file then return false
  return (← lift t.line.inFile) < (← lift s.line.inFile)

def addDependences (tasks others : List Nat) (ins outs : NameUpdates) : Planning Unit := do
  for i in tasks do
    for (c, names) in [(TaskClause.dependOut, outs.getD i []), (TaskClause.dependIn, ins.getD i [])] do
      if !names.isEmpty then
        for v in names do addName i c v
        setNames i c (distinct ((← task i).names c))
  setCurrent (others ++ tasks)

def secondCalls (s : TaskSuggestion) (m : Node) :
    Planning (List (Option String × List (Option String))) := do
  let g ← graph
  let around ← lift (g.functionsAround m)
  if m.recursiveCalls.isEmpty then
    let _ ← around.mapM fun _ => lift (p.taskCall? s)
    return []
  taskCalls p s m

def dependOnDifferent (aliases : Table Nat (List AliasClass)) (flows : Flows) :
    Planning Unit := do
  let tasks ← tasksOf .task
  let others ← numbersOf fun s => s.kind? ≠ some .task
  let mut ins : NameUpdates := ∅
  let mut outs : NameUpdates := ∅
  for i in tasks do
    let t ← task i
    for (function, args) in ← taskCalls p t (← node t.node) do
      for j in tasks do
        if j ≠ i then
          let s ← task j
          for (other, _) in ← secondCalls p s (← node s.node) do
            if function ≠ other then
              let names ← lift (flows.between args (aliases.getD i []) (aliases.getD j []))
              if !(← precedes s t) then
                outs := outs.note i names
                ins := ins.note j names
  addDependences tasks others ins outs

def callsInside (f : Node) : Planning (List String) := do
  let g ← graph
  let nodes ← lift (EffectContext.body g f)
  return distinct (nodes.flatMap fun n => n.recursiveCalls.filterMap id)

def splitCall (call : String) : Result (String × String) :=
  match Text.split " " (Text.cut "," call).1 with
  | [name, line] => .ok (name, line)
  | _ => .error .absentText

def commonWritten (first second : List ArgumentEffect) : List String :=
  let common := first.filter fun a =>
    second.any (fun b => b.name == a.name) && (Text.integer? a.name).isNone
  ((distinct common).filter fun a => a.effect.written).map (·.name)

/-- A search for effects inside of a plan; what it finds out stays. -/
def searchEffects {α : Type} (s : EffectState) (a : EffectSearch α) : Planning (α × EffectState) :=
  lift (a.run s)

def effectsOfCall (c : EffectContext) (s : EffectState) (t : TaskSuggestion) (test : LineTest)
    (call : String) : Planning (LineId × Option (List ArgumentEffect) × EffectState) := do
  let (name, line) ← lift (splitCall call)
  let bound ← lift t.line.inFile
  let (found, s) ← searchEffects { s with visited := [] } (c.effects {
    position := line, caller := ← node t.node, bound, test, name := some name })
  return (line, found, s)

/-- The names through which the other calls of a function depend on the call of a task: for each
such call its line and the names. -/
def laterUses (c : EffectContext) (t : TaskSuggestion) (calls : List String) (s : EffectState) :
    Planning (List (LineId × List String) × EffectState) :=
  go calls.zipIdx s
where
  compare (k : Nat) (first : List ArgumentEffect) :
      List (String × Nat) → EffectState → Planning (List (LineId × List String) × EffectState)
    | [], s => return ([], s)
    | (call, j) :: rest, s => do
      if j == k then compare k first rest s
      else
        let (line, found, s) ← effectsOfCall c s t .after call
        let (more, s) ← compare k first rest s
        match found with
        | none => return (more, s)
        | some second => return ((line, commonWritten first second) :: more, s)
  /-- Looks for the call of the task; ends with the first one that has known later calls. -/
  go : List (String × Nat) → EffectState → Planning (List (LineId × List String) × EffectState)
    | [], s => return ([], s)
    | (call, k) :: rest, s => do
      let (_, found, s) ← effectsOfCall c s t .equal call
      match found with
      | none => go rest s
      | some first =>
        let (uses, s) ← compare k first calls.zipIdx s
        if uses.isEmpty then go rest s else return (uses, s)

def dependOnSame (dependences : CallDependences)
    (aliases : Table String (List (String × String))) : Planning Unit := do
  let tasks ← tasksOf .task
  let others ← numbersOf fun s => s.kind? ≠ some .task
  let c : EffectContext := { graph := ← graph, program := p, dependences, aliases }
  let mut ins : NameUpdates := ∅
  let mut outs : NameUpdates := ∅
  let mut known : EffectState := {}
  for i in tasks do
    let t ← task i
    for f in (← lift (c.graph.functionsAround (← node t.node))).reverse do
      match ← lift (p.taskCall? t) with
      | none => pure ()
      | some _ =>
        let (uses, s) ← laterUses c t (← callsInside f) known
        known := s
        for (line, names) in uses do
          for j in tasks do
            let other ← task j
            let number ← lift (EffectContext.positionPart line 1)
            if j ≠ i && other.line == .written number then
              outs := outs.note i names
              ins := ins.note j names
  addDependences tasks others ins outs

end Planning

end ParallelPatterns
