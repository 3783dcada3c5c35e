import ParallelPatterns.Source.Program
import ParallelPatterns.Task.Ancestry
import ParallelPatterns.Task.Suggestion

/-!
# Aliases of the arguments of calls

A name that is an argument of the call of a task is known under other names inside of the called
function and of the functions that this one hands it on to.
-/

namespace ParallelPatterns

structure LocalName where
  name : Option String
  function : Option String
  first : LineId
  last : LineId
  deriving DecidableEq, Repr, Inhabited

def LocalName.of (name : Option String) (f : Node) : LocalName := ⟨name, f.name, f.start, f.finish⟩

structure AliasClass where
  origin : LocalName
  others : List LocalName
  deriving Repr, Inhabited

def AliasClass.all (c : AliasClass) : List LocalName := c.origin :: c.others

def AliasClass.join (cs : List AliasClass) : List AliasClass :=
  cs.reverse.foldl (fun joined c =>
    if joined.any fun j => j.origin == c.origin then
      joined.map fun j => if j.origin == c.origin then { j with others := j.others ++ c.others } else j
    else joined ++ [c]) []

def Graph.functionsAround (g : Graph) (n : Node) : Result (List Node) := do
  match (g.sources (g.inEdgesOf n.id [.child])).filter (·.isFunction) with
  | [] =>
    let above := g.nodesAt (Search.breadthFirst g.parentIds (g.size + 1) (g.parentIds n.id) [])
    return [← (above.find? (·.isFunction)).getDM (.error .outOfRange)]
  | direct => return direct

namespace Planning

def firstCall (n : Node) : Result (Option String) :=
  n.recursiveCalls.head?.getDM (.error .outOfRange)

end Planning

def Program.taskCall? (p : Program) (t : TaskSuggestion) : Result (Option String) := do
  p.callText? (← t.line.toInt) (Text.cut ":" t.node).1 none

/-- What the search for aliases has met: arguments of functions, and called functions. -/
structure AliasSearch where
  visited : List (Node × Nat) := []
  called : Graph.CalledCache := ∅

abbrev Searching := StateT AliasSearch Result

namespace Searching

/-- Has the argument of a function been met? -/
def isVisited (f : Node) (i : Nat) : Searching Bool := do
  return (← get).visited.any fun v => v.1.alike f && v.2 == i

def calledAt (g : Graph) (n : Node) : Searching (List Node) := do
  let s ← get
  let (found, called) := g.functionsCalled n s.called
  set { s with called }
  return found.foldl (fun kept f => if f.among kept then kept else kept ++ [f]) []

/-- The names of an argument of a function, and those under which the function hands it on. -/
def aliasesGo (p : Program) (g : Graph) : Nat → Node → Nat → Searching (List LocalName)
  | 0, _, _ => throw .endless
  | fuel + 1, f, i => do
    modify fun s => { s with visited := s.visited ++ [(f, i)] }
    let args ← f.args?.getDM (throw .missingProperty)
    let name := (← args[i]?.getDM (throw .outOfRange)).name
    let passed ← (g.targets (g.outEdges f.id)).mapM fun n => do
      let lines := (List.range (n.endLine - n.startLine + 1).toNat).map fun (k : Nat) => n.startLine + (k : Int)
      (← calledAt g n).mapM fun callee => lines.mapM fun line => do
        match ← p.callText? line (Text.cut ":" n.id).1 none with
        | none => return []
        | some text =>
          let (_, given) ← Source.callArguments p.demangler text callee.name n
          (given.zipIdx).mapM fun (arg, j) => do
            if arg == name && !(← isVisited callee j) then aliasesGo p g fuel callee j else return []
    return LocalName.of name f :: passed.flatten.flatten.flatten.flatten

end Searching

def Graph.calledAtLine (g : Graph) (n : Node) (line : DirectiveLine) : Result (Option Node) :=
  (n.recursiveCalls.filterMap id).foldlM (fun found call => do
    match Text.split " " (Text.cut "," call).1 with
    | name :: place :: _ =>
      match Text.split ":" place with
      | _ :: number :: _ =>
        if (← ParallelPatterns.number number) ≠ (← line.toInt) then return found
        match (g.functions.filter fun f => f.name == some name).getLast? with
        | some f => return some f
        | none => return found
      | _ => throw .outOfRange
    | _ => throw .outOfRange) none

def AliasSearch.ofTask (p : Program) (g : Graph) (t : TaskSuggestion) (n : Node) :
    Searching (List AliasClass) := do
  let bound := total (g.allNodes.map fun m => ((m.args?.map (·.length)).getD 0)) + 2
  let found ← (← liftM (g.functionsAround n)).mapM fun parent => do
    match ← p.taskCall? t with
    | none => return []
    | some text =>
      let (_, given) ← Source.callArguments p.demangler text (← Planning.firstCall n) n
      let called ← g.calledAtLine n t.line
      given.zipIdx.filterMapM fun (arg, i) => do
        match arg, called with
        | some name, some f =>
          modify fun s => { s with visited := [] }
          let others ← Searching.aliasesGo p g bound f i
          return some { origin := .of (some name) parent, others }
        | _, _ => return none
  return AliasClass.join found.flatten

namespace Planning

def aliasClasses (p : Program) : Planning (Table Nat (List AliasClass)) := do
  let tasks ← (← tasksOf .task).mapM fun i => do
    let t ← task i
    return (i, t, ← node t.node)
  let g ← graph
  let search : Searching (Table Nat (List AliasClass)) := tasks.foldlM (fun table (i, t, n) => do
    return table.insert i (← AliasSearch.ofTask p g t n)) ∅
  lift ((search.run {}).map (·.1))

end Planning

end ParallelPatterns
