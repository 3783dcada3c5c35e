import ParallelPatterns.Graph.Traversal
import ParallelPatterns.Task.Suggestion

/-!
# Groups of tasks

A wait and the tasks that it may wait for form a group. Groups that share a task are one group; its
number is the least of theirs. Suggestions are written by file, those further down first.
-/

namespace ParallelPatterns

namespace Graph

def near (g : Graph) (id : NodeId) : List Node := g.sources (g.inEdgesOf id [.successor]) ++ g.successors id

/-- Collects the nodes around a wait: those that are connected with it over successors, up to other
waits. -/
def relativesGo (g : Graph) : Nat → List Node → List Node → List Node
  | 0, _, relatives => relatives
  | _ + 1, [], relatives => relatives
  | fuel + 1, n :: queue, relatives =>
    if n.containsTaskwait then g.relativesGo fuel queue relatives
    else g.relativesGo fuel (enqueue (relatives ++ [n]) queue (g.near n.id)) (relatives ++ [n])

/-- The nodes that belong to a wait at a node. Every edge and every node brings the nodes around one
node into the queue at most, so that the queue gets empty. -/
def relativesOf (g : Graph) (n : Node) : List Node :=
  g.relativesGo ((2 * g.edgeCount + 1) * (g.edgeCount + g.size)) (g.sources (g.inEdgesOf n.id [.successor])) [n]

end Graph

abbrev GroupTable := Table Int Int

namespace GroupTable

def join (t : GroupTable) (groups : List Int) : GroupTable :=
  match groups with
  | first :: second :: rest =>
    let least := (second :: rest).foldl min first
    groups.foldl (fun t g => t.insert g least) t
  | _ => t

def follow (t : GroupTable) : Nat → Int → Int
  | 0, g => g
  | fuel + 1, g =>
    match t.get? g with
    | none => g
    | some r => if r == g then g else t.follow fuel r

def replacement (t : GroupTable) (g : Int) : Int := t.follow (t.entries.length + 1) g

end GroupTable

/-- Gives a task a list of groups of its own. -/
def Plan.regroup (p : Plan) (i : Nat) (groups : List Int) : Plan :=
  { p with
    fresh := p.fresh + 1
    groups := p.groups.insert p.fresh groups
    known := p.known.modify i (·.mapTask fun t => { t with group := p.fresh }) }

namespace Planning

def markGroup (tasks : List Nat) (wait : Nat) (group : Int) : Planning Unit := do
  addGroup wait group
  let g ← graph
  let relatives := g.relativesOf (← node (← task wait).node)
  let inside ← tasks.filterM fun i => do return (← node (← task i).node).among relatives
  for i in inside do addGroup i group

def settleGroup (t : GroupTable) (i : Nat) : Planning Unit := do
  let groups := (← groupsOf i).map t.replacement
  modify (·.regroup i groups)
  match groups with
  | [] => pure ()
  | first :: rest =>
    if rest.any (· ≠ first) then throw (.brokenTaskGroup (← task i).node groups)
    modify (·.regroup i [first])

def groupTasks : Planning Unit := do
  let tasks ← tasksOf .task
  let waits ← tasksOf .taskwait
  for (w, k) in waits.zipIdx do markGroup tasks w k
  let table := (← tasks.mapM groupsOf).foldl GroupTable.join ∅
  for i in tasks ++ waits do settleGroup table i

end Planning

namespace Suggestion

def startLines? : Suggestion → Option (Option String × LineId)
  | task t => some (some t.regionStart, t.first)
  | region r => some (r.regionStart, r.first)
  | omittable _ => none

def place? (s : Suggestion) : Result (Option (String × String)) :=
  match s.startLines? with
  | none => .ok none
  | some (none, _) => .error .wrongSort
  | some (some start, first) =>
    match Text.cut ":" start with
    | (file, some line) => .ok (some (file, line))
    | (line, none) => .ok (some ((Text.cut ":" first).1, line))

end Suggestion

namespace Planning

/-- Sorts the suggestions by file, in the order in which the files first occur, and by line, from
the last to the first; units that may join a task are dropped. -/
def sortByLine : Planning Unit := do
  let byFile ← (← currentSuggestions).foldlM (fun (t : Table String (List (Nat × String))) (i, s) => do
    match ← lift s.place? with
    | none => return t
    | some (file, line) => return t.update file [] (· ++ [(i, line)])) ∅
  let sorted ← byFile.values.mapM fun places => do
    let numbered ← places.mapM fun (i, line) => do return (i, ← lift (number line))
    return (numbered.mergeSort fun a b => b.2 ≤ a.2).map (·.1)
  setCurrent sorted.flatten

end Planning

end ParallelPatterns
