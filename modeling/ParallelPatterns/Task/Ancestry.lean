import ParallelPatterns.Dataflow.Variables
import ParallelPatterns.Graph.Reachability

/-!
# Around a unit

The searches that the analysis of tasks makes through the program graph: the loops and functions
around a unit, the units of a function, the nodes that run before a unit, and the functions that a
node calls.
-/

namespace ParallelPatterns.Graph

variable (g : Graph)

variable (n : Node)

def unvisitedInto (edge : EdgeKind) (visited : List Node) : List Node :=
  (g.sources (g.inEdgesOf n.id [edge])).filter fun p => !p.among visited

def parentsGo (g : Graph) (kind : NodeKind) (edge : EdgeKind) (onlyFirst : Bool) :
    Nat → List Node → List Node → List (Node × Node) → List (Node × Node)
  | 0, _, _, found => found
  | _ + 1, [], _, found => found
  | fuel + 1, n :: queue, visited, found =>
    let before := g.unvisitedInto n edge (visited ++ [n])
    let (hits, others) := before.partition fun p => p.kind == kind
    if onlyFirst && !hits.isEmpty then (hits.take 1).map fun p => (p, n)
    else
      let queue := others.foldl (fun q p => if q.any (fun o => o.id == p.id) then q else q ++ [p]) queue
      parentsGo g kind edge onlyFirst fuel queue (visited ++ n :: hits) (found ++ hits.map fun p => (p, n))

def parentsOf (kind : NodeKind) (edge : EdgeKind) (onlyFirst : Bool) : List (Node × Node) :=
  g.parentsGo kind edge onlyFirst (g.size + 1) [n] [] []

def functionAbove : Result Node :=
  match g.parentsOf n .function .child true with
  | (f, _) :: _ => .ok f
  | [] => .error .outOfRange

def levelsBelow : List Node :=
  g.nodesAt (Search.breadthFirst (fun id => (g.outEdgesOf id [.child]).map (·.target)) (g.size + 1) [n.id] [])

/-- Collects the nodes that may run before a node. The search goes no further than to functions and
to nodes that wait for tasks. The nodes to go on with are fixed before any of them is searched.
Nothing bounds the recursion: the result is `none` if it has no end. -/
def predecessors (g : Graph) (n : Node) (visited : List Node) : Option (List Node × List Node) :=
  let visited := visited ++ [n]
  if n.isFunction || n.containsTaskwait then some ([n], visited)
  else
    (g.unvisitedInto n .successor visited).foldlM (fun (s : List Node × List Node) p => do
      let r ← g |>.predecessors p s.2
      return (s.1 ++ r.1, r.2)) ([n], visited)
partial_fixpoint

def predecessorsOf : List Node × List Node := (g.predecessors n []).getD ([], [])

/-- Goes back from a node over successor edges until it meets the target, but never past the blocked
node. Nothing bounds the recursion: the result is `none` if it has no end, else it has the visited
nodes. -/
def searchBack (g : Graph) (target blocked n : Node) (visited : List Node) : Option (Bool × List Node) :=
  if n.among visited then some (false, visited)
  else
    let visited := visited ++ [n]
    if n.alike target then some (true, visited)
    else if n.alike blocked then some (false, visited)
    else
      (g.sources (g.inEdgesOf n.id [.successor])).foldlM (fun (s : Bool × List Node) p =>
        if s.1 then some s else g |>.searchBack target blocked p s.2) (false, visited)
partial_fixpoint

def reachesBackWithout (n target blocked : Node) : Bool := (g.searchBack target blocked n []).any (·.1)

def functionFor : Node :=
  if n.kind == .dummy then ((g.functions.filter fun f => f.name == n.name).getLast?).getD n else n

abbrev CalledCache := Table NodeId (List Node)

def functionsCalledGo (g : Graph) :
    Nat → Node → List Node → CalledCache → List Node × List Node × CalledCache
  | 0, _, visited, cache => ([], visited, cache)
  | fuel + 1, n, visited, cache =>
    let visited := visited ++ [n]
    let (found, visited, cache) := (g.targets (g.outEdges n.id)).foldl
      (fun (found, visited, cache) c =>
        if c.isFunction || c.kind == .dummy then (found ++ [g.functionFor c], visited, cache)
        else if c.among visited then (found, visited, cache)
        else match cache.get? c.id with
          | some known => (found ++ known, visited, cache)
          | none =>
            let (more, visited, cache) := g.functionsCalledGo fuel c visited cache
            (found ++ more, visited, cache)) (([] : List Node), visited, cache)
    (found, visited, cache.insertNew n.id found)

def functionsCalled (cache : CalledCache) : List Node × CalledCache :=
  let (found, _, cache) := g.functionsCalledGo (g.size + 1) n [] cache
  (found, cache)

def containsReduction : Result Bool := do
  (← g.reductionList).anyM fun r => lineInRegion r.reductionLine n.start n.finish

def innermostAround (call : String) (nodes : List Node) : Result Node := do
  let call := Text.trimEndBy (· == ' ') (Text.trimStartBy (· == ' ') (Text.replace "," "" call))
  match Text.find? " " call, Text.find? ":" call with
  | some i, some j =>
    let file := Text.slice (i + 1) j call
    let found ← nodes.foldlM (fun (best : Option Node) n => do
      if file ≠ toString n.file then return best
      let first ← number (← lineId (toString n.startLine))
      let last ← number (← lineId (toString n.endLine))
      let line ← number (Text.drop (j + 1) call)
      if !(first ≤ line && line ≤ last) then return best
      match best with
      | none => return some n
      | some b =>
        if (← lineInRegion n.start b.start b.finish) && (← lineInRegion n.finish b.start b.finish)
        then return some n else return best) none
    found.getDM (throw .noEnclosingUnit)
  | _, _ => throw .absentText

end ParallelPatterns.Graph
