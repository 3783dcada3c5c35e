import ParallelPatterns.Graph.Traversal

/-!
# What functions know of their nodes

Each function collects the nodes below it and what they reach over successor edges; each node learns
its function. Afterwards, of several dependences that say the same of the same access, only the most
specific ones are kept: those that stay inside one iteration, at the deepest level.
-/

namespace ParallelPatterns.Graph

/-- The nodes below a node over child edges: first its children, then what lies below them, from the
last child to the first. A node below two others is listed twice. -/
def descendantsGo (g : Graph) : Nat → NodeId → Result (List NodeId)
  | 0, _ => .error .endless
  | fuel + 1, id => do
    let children := (g.children id).map (·.id)
    let below ← children.reverse.mapM (descendantsGo g fuel)
    return children ++ below.flatten

variable (g : Graph)

/-- The nodes below a node over child edges. -/
def descendants (id : NodeId) : Result (List NodeId) := g.descendantsGo (g.size + 1) id

def successorReach (ids : List NodeId) (t : Table NodeId (List NodeId)) : Table NodeId (List NodeId) :=
  let view := g.successorView
  let next (id : NodeId) : List NodeId := (view.outEdges id).map (·.target)
  ids.foldl (fun t id => t.insert id (Search.reached next view.size id)) t

def collectFunction (f : NodeId) : Result Graph := do
  let ids ← g.descendants f
  let g := { g with
    nodes := g.nodes.map fun id (n : Node) =>
      if ids.contains id then { n with parentFunction := some f } else n }
  return g.modifyNode f fun n => n.modifyFunction fun b =>
    { b with children := some ids, reach := g.successorReach ids b.reach }

def isCoarser (es : List Edge) (e : Edge) : Bool :=
  es.any fun o => !e.same o && e.dep.sameAccess o.dep && !e.dep.intraIteration && o.dep.intraIteration

/-- Is the dependence repeated by one that stays inside an iteration of a deeper level? -/
def isShallower (es : List Edge) (e : Edge) : Bool :=
  es.any fun o => !e.same o && e.dep.sameAccess o.dep && e.dep.intraIteration && o.dep.intraIteration &&
    e.dep.level < o.dep.level

def removeRedundant (test : List Edge → Edge → Bool) : Graph :=
  let redundant := g.units.flatMap fun n =>
    let es := g.outData n.id
    es.filter (test es)
  g.removeEdges fun e => redundant.any (e.same ·)

/-- Keeps, of several dependences that say the same of the same access, the most specific ones. -/
def removeRepeated : Graph := (g.removeRedundant isCoarser).removeRedundant isShallower

def computeMetadata : Result Graph := do
  let g ← g.functions.foldlM (fun g f => g.collectFunction f.id) g
  return g.removeRepeated

def removePlaceholders (loopsOnly removeDummies : Bool) : Graph :=
  let isDummy (id : NodeId) : Bool := (g.node? id).any (·.kind == .dummy)
  let removed :=
    if removeDummies then
      (g.allNodes.filter fun n => (!loopsOnly || n.isLoop) && n.kind != .dummy).flatMap fun n =>
        ((g.outEdgesOf n.id [.child, .call]).map (·.target)).filter isDummy
    else []
  (distinct removed).foldl removeNode g

end ParallelPatterns.Graph
