import ParallelPatterns.Task.Suggestion

/-!
# Joining units with tasks

A unit that follows a task and depends only on it may join the task: the task then ends where the
unit ends, and what the unit writes comes out of the task. A copy of the task as it was is kept
beside it.
-/

namespace ParallelPatterns.Planning

/-- The current units that may join a task: those that directly follow a node with a task. The
others are no longer marked. -/
def usefulOmittables : Planning (List Nat) := do
  (← numbersOf fun s => s.omittable?.isSome).filterM fun i => do
    let o := ((← suggestion i).omittable?).getD default
    let g ← graph
    let followsTask := (g.sources (g.inEdgesOf o.node [.successor])).any (·.containsTask)
    if !followsTask then modifyNode o.node fun n => { n with omittable := false }
    return followsTask

def tasksByNode (tasks : List Nat) : Planning (List (Node × List Nat)) :=
  tasks.foldlM (fun (t : List (Node × List Nat)) i => do
    let n ← node (← task i).node
    if t.any fun p => p.1.alike n then
      return t.map fun p => if p.1.alike n then (p.1, p.2 ++ [i]) else p
    else return t ++ [(n, [i])]) []

def joinTask (o : OmittableSuggestion) (i : Nat) : Planning Unit := do
  for v in o.dependOut do addName i .dependOut v
  for v in o.dependIn do
    if ((← task i).names .dependOut).contains v then changeNames i .dependOut (·.erase v)
  let last ← (← task i).regionEnd.getDM (throw .wrongSort)
  let unitEnd ← lift (number (lineOf o.last))
  if unitEnd > (← lift (number (lineOf last))) then
    modifyTask i fun t => { t with regionEnd := some o.last }

def joinedTasks (o : OmittableSuggestion) : List Nat → Planning (List Nat)
  | [i] => return [i]
  | is => is.filterM fun i => do
    let names := (← task i).names .dependOut
    return o.dependIn.all names.contains

def combineOmittables : Planning Unit := do
  let tasks ← tasksOf .task
  let others ← numbersOf fun s => s.omittable?.isNone && s.kind? ≠ some .task
  let units ← usefulOmittables
  let copies ← units.mapM fun u => do
    let o := ((← suggestion u).omittable?).getD default
    let partner ← node o.partner
    let same ← tasks.filterM fun i => do return (← node (← task i).node).alike partner
    same.mapM fun i => do add (.task (← task i))
  let byNode ← tasksByNode tasks
  for u in units do
    modifySuggestion u fun s =>
      match s with
      | .omittable o => .omittable {
          o with dependIn := o.dependIn ++ o.dependInOut, dependOut := o.dependOut ++ o.dependInOut }
      | s => s
    let o := ((← suggestion u).omittable?).getD default
    let partner ← node o.partner
    match byNode.find? fun p => p.1.alike partner with
    | none => pure ()
    | some (_, is) =>
      for i in ← joinedTasks o is do joinTask o i
  let joined := byNode.flatMap (·.2)
  for i in joined do
    setNames i .dependIn (distinct ((← task i).names .dependIn))
    setNames i .dependOut (distinct ((← task i).names .dependOut))
    let t ← task i
    setNames i .dependInOut ((t.names .dependIn).filter (t.names .dependOut).contains)
  setCurrent (others ++ copies.flatten ++ joined)

def regionKey : Suggestion → Option (Option String × Option String × List String)
  | .task t => some (some t.regionStart, t.regionEnd, t.pragma)
  | .region r => some (r.regionStart, r.regionEnd, [RegionSuggestion.pragma])
  | .omittable _ => none

/-- Drops suggestions whose region and directive another one before them has; units that may join a
task are dropped, too. -/
def dropDuplicates : Planning Unit := do
  let kept := (← currentSuggestions).foldl (fun (kept : List (Nat × _)) (i, s) =>
    match regionKey s with
    | none => kept
    | some k => if kept.any fun e => e.2 == k then kept else kept ++ [(i, k)]) []
  setCurrent (kept.map (·.1))

end ParallelPatterns.Planning
