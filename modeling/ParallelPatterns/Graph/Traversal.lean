import ParallelPatterns.Graph.Basic
import ParallelPatterns.Graph.Search

/-!
# Walking through the program graph

The nodes below a node, the way down from one node to another, the nodes to the left and to the
right of a node inside its function, and the place of a node among functions and loops.
-/

namespace ParallelPatterns.Graph

variable (g : Graph)

def size : Nat := g.nodes.entries.length

def edgeCount : Nat := total (g.links.map fun l => l.edges.length)

def nodesAt (ids : List NodeId) : List Node := ids.filterMap g.node?

/-- The identifiers that are reached over edges of the given kinds, the start first, in depth-first
order. -/
def reachedIds (kinds : List EdgeKind) (start : NodeId) : List NodeId :=
  Search.reached (fun id => (g.outEdgesOf id kinds).map (·.target)) g.size start

def reachingIds (kinds : List EdgeKind) (stop : NodeId) : List NodeId :=
  Search.reached (fun id => (g.inEdgesOf id kinds).map (·.source)) (g.links.length + 1) stop

variable (root : Node)

/-- The nodes below a node: everything reached over child and call edges, the node itself first, in
depth-first order. -/
def subtree : List Node := g.nodesAt (g.reachedIds [.child, .call] root.id)

def subtreeOf (kinds : List NodeKind) : List Node :=
  (g.subtree root).filter fun n => kinds.contains n.kind

def subtreeUnits : List Node := g.subtreeOf root [.unit]

def unitIds : List NodeId := (g.subtreeUnits root).map (·.id)

def subtreeLoops : List Node := g.subtreeOf root [.loop]

def childrenOrCalledOf (id : NodeId) (kinds : List NodeKind) : List Node :=
  (g.childrenOrCalled id).filter fun n => kinds.contains n.kind

/-- Goes down from a node until a target is met, child by child; the children that are new when the
node is entered are tried. Gives the way and the visited nodes. Nothing bounds the recursion: the
result is `none` if it has no end. -/
def descend (g : Graph) (target source : Node) (visited : List NodeId) : Option (List Node × List NodeId) :=
  let visited := addNew visited source.id
  if source.alike target then some ([source], visited)
  else
    ((g.childrenOrCalled source.id).filter fun c => !visited.contains c.id).foldlM
      (fun (found : List Node × List NodeId) child =>
        if found.1.isEmpty then do
          let (way, visited) ← g |>.descend target child found.2
          return (if way.isEmpty then [] else source :: way, visited)
        else some found)
      ([], visited)
partial_fixpoint

/-- The way from a node down to another over child and call edges; empty if there is none. -/
def path (g : Graph) (source target : Node) : List Node := ((g.descend target source []).map (·.1)).getD []

/-- Puts the nodes that have not been met into the queue. -/
def enqueue (met queue : List Node) (ns : List Node) : List Node :=
  ns.foldl (fun queue m => if m.among (met ++ queue) then queue else queue ++ [m]) queue

def parentFunction (n : Node) : Result Node :=
  if n.isFunction then .ok n
  else match n.parentFunction with
    | some f => if f == "" then .error .requirement else g.node f
    | none => .error .requirement

def parentId (id : NodeId) : Result (Option NodeId) :=
  match g.parentIds id with
  | [] => .ok none
  | [p] => .ok (some p)
  | [p, q] =>
    .ok ([p, q].find? fun i => (g.node? i).any (!·.isFunction))
  | _ => .error (.tooManyParents id)

def besideGo (g : Graph) (target : Node) (next : NodeId → List Node) :
    Nat → List Node → List NodeId → List Node → List Node
  | 0, _, _, found => found
  | _ + 1, [], _, found => found
  | fuel + 1, n :: stack, visited, found =>
    if n.alike target then found
    else
      let found := if n.isUnit then found ++ [n] else found
      if visited.contains n.id then besideGo g target next fuel stack visited found
      else besideGo g target next fuel (next n.id ++ stack) (visited ++ [n.id]) found

/-- The units of a node's function that are met before the node: to its right when the children are
walked from the last to the first, else to its left. -/
def beside (g : Graph) (target : Node) (right ignoreCalls : Bool) : Result (List Node) := do
  let f ← g.parentFunction target
  let below (id : NodeId) : List Node := if ignoreCalls then g.children id else g.childrenOrCalled id
  let next (id : NodeId) : List Node := if right then (below id).reverse else below id
  return besideGo g target next (g.edgeCount + 2) [f] [] []

def levelsFrom (g : Graph) (levelOf : NodeId → Result Int) : List NodeId → Result (List Int)
  | [] => .ok []
  | p :: ps =>
    match g.node? p with
    | none => levelsFrom g levelOf ps
    | some n =>
      if n.isFunction then .ok [0]
      else if n.isLoop then do
        let level ← levelOf p
        return min 2 level :: (← levelsFrom g levelOf ps)
      else levelsFrom g levelOf ps

def largest (xs : List Int) : Result Int :=
  xs.max?.getDM (.error .notANumber)

def smallest (xs : List Int) : Result Int :=
  xs.min?.getDM (.error .notANumber)

def parentLevels (g : Graph) : Nat → NodeId → Result (List Int)
  | 0, _ => .error .endless
  | fuel + 1, id =>
    g.levelsFrom (fun p => do largest (← parentLevels g fuel p)) (g.parentIds id)

def nestingLevel (id : NodeId) (inverted : Bool) : Result Int := do
  let levels ← g.parentLevels (g.size + 1) id
  if inverted then smallest (levels.map fun l => max 0 (2 - l)) else largest levels

def entryNode (loop : Node) : Option Node :=
  let body := g.children loop.id
  body.find? fun n => (g.sources (g.inEdgesOf n.id [.successor])).any fun p => !p.among body

def entryUnit (function : NodeId) : Result NodeId :=
  match ((g.outEdgesOf function [.child]).map (·.target)).find? fun id =>
    (g.inEdgesOf id [.successor]).isEmpty with
  | some id => .ok id
  | none => .error (.noEntryUnit function)

def exitUnits (children : List NodeId) : List NodeId :=
  distinct (children.filter fun id =>
    (g.outEdgesOf id [.successor]).isEmpty && !(g.inEdgesOf id [.successor]).isEmpty)

def declaredAt (id : NodeId) (name : String) : Result (Option Variable) := do
  match (← g.node id).unit? with
  | none => .error .missingProperty
  | some b => return (b.locals ++ b.globals).find? fun v => v.name == some name

/-- The nearest variable of a name: searched at the nodes of a queue and backwards over successor
edges. Nothing bounds the number of turns: the result is `none` if there is no last one. -/
def findVariableGo (g : Graph) (name : String) (queue visited : List NodeId) : Option (Result (Option Variable)) :=
  match queue with
  | [] => some (.ok none)
  | id :: queue =>
    match g.declaredAt id name with
    | .ok none =>
      let visited := addNew visited id
      g |>.findVariableGo name (Search.enqueue visited queue ((g.inEdgesOf id [.successor]).map (·.source))) visited
    | answer => some answer
partial_fixpoint

def findVariable (root : NodeId) (name : String) : Result (Option Variable) :=
  (g.findVariableGo name [root] []).getD (.error .endless)

end ParallelPatterns.Graph
