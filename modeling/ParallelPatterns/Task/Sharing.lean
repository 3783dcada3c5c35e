import ParallelPatterns.Input.DefinitionLines
import ParallelPatterns.Task.Detection

/-!
# Data sharing of tasks

A variable that one task of a function shares is shared by all of its tasks. Clauses are kept only
for variables that are defined in the function of the task and known where the task stands; each
variable stays in one class, and loop indices are not shared.
-/

namespace ParallelPatterns

/-- A variable name without the mark of a copied argument. -/
def bareName (name : String) : String := Text.replace ".addr" "" name

namespace Planning

def shareInFunctions : Planning Unit := do
  let tasks ← tasksOf .task
  for i in tasks do
    if !((← task i).names .shared).isEmpty then
      let g ← graph
      let functions := (g.sources (g.inEdgesOf (← task i).node [.child])).filter (·.isFunction)
      for f in functions do
        for j in tasks do
          let other ← task j
          if (← lift (lineInRegion other.first f.start f.finish)) &&
              (← lift (lineInRegion other.last f.start f.finish)) then
            for var in (← task i).names .shared do
              let other ← task j
              if !([TaskClause.shared, .privates, .firstPrivate].any fun c => (other.names c).contains var)
              then addName j .shared var

end Planning

def DefinitionLines.of (t : DefinitionLines) (name : String) : Result (List (Option String)) :=
  (t.get? name).getDM (.error .unknownKey)

namespace Graph

def isDefinedIn (f : Node) (line : Option String) : Result Bool := do
  lineInRegion (← line.getDM (.error .missingProperty)) f.start f.finish

/-- Runs a test over lines up to the first that cannot be read; tells whether one of them passed. -/
def anyReadable (p : Option String → Result Bool) : List (Option String) → Bool → Result Bool
  | [], found => .ok found
  | l :: ls, found =>
    match p l with
    | .ok b => anyReadable p ls (found || b)
    | .error e => if e.kind == .value then .ok found else .error e

/-- Is a variable that a task gets as a copy defined in its function? -/
def keepsFirstPrivate (f : Node) (lines : List (Option String)) : Result Bool :=
  anyReadable (isDefinedIn f) lines false

def keepsPrivate (f : Node) (lines : List (Option String)) : Result Bool :=
  anyReadable (fun line =>
    match line with
    | none => .ok true
    | some "GlobalVar" => .ok true
    | some "LineNotFound" => .ok false
    | some l => isDefinedIn f (some l)) lines false

def keepsShared (f : Node) : List (Option String) → Bool → Result Bool
  | [], found => .ok found
  | some "GlobalVar" :: _, _ => .ok false
  | some "LineNotFound" :: _, _ => .ok false
  | l :: ls, found => do keepsShared f ls (found || (← isDefinedIn f l))

end Graph

namespace Planning

def filterClause (i : Nat) (c : TaskClause) (lines : DefinitionLines)
    (keeps : List (Option String) → Result Bool) : Planning Unit := do
  let names := (← task i).names c
  let rejected ← names.filterM fun v => do return !(← lift (keeps (← lift (lines.of (bareName v)))))
  let rejected := rejected.map bareName
  setNames i c (names.filter fun v => !rejected.contains (bareName v))

end Planning

/-- What the three classes of variables of a task keep when each variable stays in one class: a
variable that is shared or private is no copy; a shared one is also not private, unless it was a
copy as well. -/
def exclusiveClasses (firstPrivate privates shared : List String) : List String × List String :=
  let dropCopy := distinct ((shared ++ privates).filter firstPrivate.contains)
  let dropPrivate := (shared.filter privates.contains).filter fun v => !dropCopy.contains v
  (firstPrivate.filter fun v => !dropCopy.contains v, privates.filter fun v => !dropPrivate.contains v)

namespace Planning

def filterByFunction (lines : DefinitionLines) : Planning Unit := do
  for i in ← numbersOf fun s => s.kind? == some .task || s.kind? == some .taskloop do
    let n ← node (← task i).node
    let f ← query fun g => g.functionAbove n
    filterClause i .firstPrivate lines (Graph.keepsFirstPrivate f)
    filterClause i .privates lines (Graph.keepsPrivate f)
    filterClause i .shared lines fun ls => Graph.keepsShared f ls false
    for c in [TaskClause.shared, .privates, .firstPrivate] do
      setNames i c (distinct (((← task i).names c).map bareName))
    let t ← task i
    let (firstPrivate, privates) :=
      exclusiveClasses (t.names .firstPrivate) (t.names .privates) (t.names .shared)
    setNames i .privates privates
    setNames i .firstPrivate firstPrivate

end Planning

namespace Graph

def definingNode? (g : Graph) (f : Node) (line : Option String) : Result (Option Node) :=
  (g.levelsBelow f).foldlM (fun (found : Option Node) n => do
    return if ← isDefinedIn n line then some n else found) none

/-- May a variable that is defined on a line be unknown at a node of a function? It may if the
function is reached back from the node without passing the definition, or if the node does not lie
below all nodes around the definition. -/
def mayBeUnknown (g : Graph) (n f : Node) (line : Option String) : Result Bool := do
  if line == some "GlobalVar" then return false
  match ← g.definingNode? f line with
  | none => return false
  | some d =>
    if g.reachesBackWithout n f d then return true
    return (g.sources (g.inEdgesOf d.id [.child, .call])).any fun p => !g.reachable n p [.child]

end Graph

namespace Planning

def filterByScope (lines : DefinitionLines) : Planning Unit := do
  for i in ← tasksOf .task do
    let n ← node (← task i).node
    let g ← graph
    let f ← lift (g.functionAbove n)
    for c in [TaskClause.firstPrivate, .privates, .shared] do
      for var in (← task i).names c do
        let hidden ← (← lift (lines.of var)).mapM fun l => lift (g.mayBeUnknown n f l)
        if hidden.any id then setNames i c (((← task i).names c).filter (· ≠ var))
        else setNames i c ((← task i).names c)

def dropSharedIndices : Planning Unit := do
  for i in ← tasksOf .task do
    let t ← task i
    let n ← node t.node
    let g ← graph
    let loops ← ((g.parentsOf n .loop .child true).map (·.1)).filterM fun l =>
      lift (lineInRegion n.start l.start l.finish)
    setNames i .shared ((t.names .shared).filter fun v => !loops.any fun l => g.isLoopIndexBelow l (some v))

/-- Keeps the data sharing clauses that make sense. -/
def filterSharing (lines : DefinitionLines) : Planning Unit := do
  filterByFunction lines
  filterByScope lines
  dropSharedIndices

end Planning

end ParallelPatterns
