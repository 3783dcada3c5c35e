import ParallelPatterns.Graph.Traversal

/-!
# Functions without cycles

The successor edges of a function form a graph; its cycles are unrolled one after another. A cycle
is left from each node that has successors outside of the cycle: the edge of the cycle into such a
node is redirected to those successors, so that the cycle is passed once.
-/

namespace ParallelPatterns

/-- A graph of successors: several edges may join the same nodes. -/
structure FlowGraph where
  nodes : List NodeId
  /-- The joined pairs in the order in which they were first joined, with the keys of their edges. -/
  links : List (NodeId × NodeId × List Nat)
  deriving Repr, Inhabited

namespace FlowGraph

variable (g : FlowGraph)

def outEdges (id : NodeId) : List (NodeId × NodeId × Nat) :=
  (g.links.filter fun l => l.1 == id).flatMap fun l => l.2.2.map fun k => (l.1, l.2.1, k)

def edges : List (NodeId × NodeId × Nat) :=
  g.links.flatMap fun l => l.2.2.map fun k => (l.1, l.2.1, k)

def successors (id : NodeId) : List NodeId := (g.outEdges id).map (·.2.1)

def addToLinks (s t : NodeId) : List (NodeId × NodeId × List Nat) → List (NodeId × NodeId × List Nat)
  | [] => [(s, t, [0])]
  | l :: ls =>
    if l.1 == s && l.2.1 == t then
      (s, t, l.2.2 ++ [Link.nextKey l.2.2]) :: ls
    else l :: addToLinks s t ls

def addEdge (s t : NodeId) : FlowGraph :=
  { nodes := addNew (addNew g.nodes s) t, links := addToLinks s t g.links }

def removeEdge (e : NodeId × NodeId × Nat) : FlowGraph :=
  { g with
    links := (g.links.map fun l =>
      if l.1 == e.1 && l.2.1 == e.2.1 then (l.1, l.2.1, l.2.2.filter (· != e.2.2)) else l).filter
        fun l => !l.2.2.isEmpty }

def addNode (id : NodeId) : FlowGraph := { g with nodes := addNew g.nodes id }

/-- Searches for a cycle in depth-first order; the way to the node stands in order. Gives the cycle,
if there is one, and the visited nodes. -/
def cycleFromGo (g : FlowGraph) : Nat → NodeId → List (NodeId × NodeId × Nat) → List NodeId →
    Option (List (NodeId × NodeId × Nat)) × List NodeId
  | 0, _, _, visited => (none, visited)
  | fuel + 1, id, way, visited =>
    (g.outEdges id).foldl (fun (found, visited) e =>
      match found with
      | some c => (some c, visited)
      | none =>
        let head := e.2.1
        if head == id || way.any fun w => w.1 == head then
          (some ((way ++ [e]).dropWhile fun w => w.1 != head), visited)
        else if visited.contains head then (none, visited)
        else cycleFromGo g fuel head (way ++ [e]) visited) (none, addNew visited id)

def cycle? : Option (List (NodeId × NodeId × Nat)) :=
  (g.nodes.foldl (fun (found, visited) id =>
    match found with
    | some c => (some c, visited)
    | none =>
      if visited.contains id then (none, visited)
      else g.cycleFromGo (g.nodes.length + 1) id [] visited)
    ((none : Option (List (NodeId × NodeId × Nat))), ([] : List NodeId))).1

end FlowGraph

namespace Graph

variable (g : Graph)

def flowGraph (ids : List NodeId) : FlowGraph :=
  let view := (g.restrictTo ids).successorView
  { nodes := view.nodes.keys, links := view.links.map fun l => (l.source, l.target, l.keys) }

def flowNodes (f : Node) : List NodeId :=
  match f.function?.bind (·.children) with
  | some ids => ids
  | none => g.nodes.keys

def innerParents (id : NodeId) : List NodeId :=
  (g.parentIds id).filter fun p => (g.node? p).all (!·.isFunction)

/-- Is a successor of a cycle's node a way out? Either it is held by nothing that holds the node, or
a successor of its own has no edge from what holds it; each reason counts. -/
def waysOut (id successor : NodeId) : List NodeId :=
  let holders := g.innerParents successor
  let apart := !(g.innerParents id).any holders.contains
  let leads := (g.successors successor).any fun s =>
    (g.inEdges s.id).all fun e => !holders.contains e.source
  (if apart then [successor] else []) ++ (if leads then [successor] else [])

/-- The state of an unrolling: the graph, and the nodes that had no way out since the last
change. -/
structure Unrolling where
  flow : FlowGraph
  stuck : List NodeId

def copyMark : String := "dummy:"

/-- Leaves a cycle from one of its nodes. With copies, a copy of the node stands between the end of
the cycle and its way out. -/
def leaveCycle (copies : Bool) (cycle : List (NodeId × NodeId × Nat)) (u : Unrolling) (id : NodeId) : Unrolling :=
  let inside := cycle.flatMap fun e => [e.1, e.2.1]
  let outside := ((g.outEdgesOf id [.successor]).map (·.target)).filter fun t => !inside.contains t
  let exits :=
    if u.stuck.contains id then outside else outside.flatMap fun s => g.waysOut id s
  if exits.isEmpty then { u with stuck := u.stuck ++ [id] }
  else
    let closing := cycle.filter fun e => e.2.1 == id
    let sources := distinct (closing.map (·.1))
    let copy := copyMark ++ id
    let flow := if copies then u.flow.addNode copy else u.flow
    let flow := closing.foldl (fun f e =>
      let f := f.removeEdge e
      if copies then f.addEdge e.1 copy else f) flow
    let flow := exits.foldl (fun f s =>
      if copies then f.addEdge copy s else sources.foldl (fun f v => f.addEdge v s) f) flow
    { flow, stuck := [] }

def leaveNodes (copies : Bool) (cycle : List (NodeId × NodeId × Nat)) (u : Unrolling) : Unrolling :=
  (distinct (cycle.map (·.1) ++ cycle.map (·.2.1))).foldl (g.leaveCycle copies cycle) u

/-- Unrolls cycles as long as there are any. Nothing bounds the number of rounds: the result is
`none` if there is no last one. -/
def unrollGo (g : Graph) (copies : Bool) (u : Unrolling) : Option FlowGraph :=
  match u.flow.cycle? with
  | none => some u.flow
  | some cycle => g |>.unrollGo copies (g.leaveNodes copies cycle u)
partial_fixpoint

def unrolled (g : Graph) (copies : Bool) (f : Node) : Result FlowGraph :=
  match g.unrollGo copies { flow := g.flowGraph (g.flowNodes f), stuck := [] } with
  | some flow => .ok flow
  | none => .error .endless

def unrolledFunctions (g : Graph) (copies : Bool) : Result (Table NodeId FlowGraph) := do
  return ⟨← g.functions.mapM fun f => do return (f.id, ← g.unrolled copies f)⟩

end Graph

end ParallelPatterns
