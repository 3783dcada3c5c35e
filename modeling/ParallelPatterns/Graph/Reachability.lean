import ParallelPatterns.Graph.Traversal

/-!
# What can be reached from where

Reachability over edges of chosen kinds, with and without the nodes on the way, and the test whether
one node may run before another.
-/

namespace ParallelPatterns.Graph

variable (g : Graph)

def reachable (target source : Node) (kinds : List EdgeKind) : Bool :=
  source.alike target || (g.nodesAt (g.reachingIds kinds target.id)).any fun n => n.alike source

/-- Searches backwards, nearest nodes first, for the source; each queue entry has the way that led
to it from the target. -/
def backwardGo (g : Graph) (source : Node) (kinds : List EdgeKind) :
    Nat → List (NodeId × List NodeId) → List NodeId → Option (List NodeId)
  | 0, _, _ => none
  | _ + 1, [], _ => none
  | fuel + 1, (id, way) :: queue, seen =>
    let before := (g.inEdgesOf id kinds).map (·.source)
    if before.any fun p => (g.node? p).any (·.alike source) then some way
    else
      let fresh := distinct (before.filter fun p => !seen.contains p)
      backwardGo g source kinds fuel (queue ++ fresh.map fun p => (p, way ++ [id])) (seen ++ fresh)

/-- Is the target reached from the source, and by which nodes? The nodes stand from the target on,
without the last one before the source. Without call edges nothing is reached across functions. -/
def reachableBy (target source : Node) (kinds : List EdgeKind) :
    Result (Bool × List NodeId) := do
  if source.alike target then return (true, [])
  let targetFunction ← g.parentFunction target
  let sourceFunction ← g.parentFunction source
  if !targetFunction.alike sourceFunction && !kinds.contains .call then return (false, [])
  match g.backwardGo source kinds (g.size + 1) [(target.id, [])] [target.id] with
  | some way => return (true, way)
  | none => return (false, [])

/-- The nodes met on the way from the units that follow a source, without passing through the target
or the source. -/
def between (target source : Node) (kinds : List EdgeKind) : List NodeId :=
  let first := ((g.targets (g.outEdgesOf source.id kinds)).filter (·.isUnit)).map (·.id)
  let next (id : NodeId) : List NodeId :=
    ((g.targets (g.outEdgesOf id kinds)).filter fun n =>
      !n.alike target && !n.alike source).map (·.id)
  Search.depthFirst next (g.size + 1) first []

def forwardIds (start : NodeId) : List NodeId :=
  g.reachedIds [.successor, .child, .call] start

/-- The callers to be asked; there are none to ask if both nodes belong to one function. -/
def callersToAsk (s t : NodeId) : Result (List NodeId) := do
  let source ← g.node s
  let target ← g.node t
  let sourceFunction ← g.parentFunction source
  let targetFunction ← g.parentFunction target
  return if sourceFunction.alike targetFunction then [] else (g.inEdgesOf sourceFunction.id [.call]).map (·.source)

/-- Is the target met from the source on? A loop stands for its first child. -/
def ownAnswer (s t : NodeId) : Result Bool := do
  let target ← g.node t
  let goal ←
    if target.isLoop then
      match g.children t with
      | c :: _ => pure c.id
      | [] => .error .outOfRange
    else pure t
  return (g.forwardIds s).contains goal

def turn (s t : NodeId) (ask : NodeId → Result Bool) : Result Bool :=
  g.callersToAsk s t >>= fun callers => callers.anyM ask >>= fun yes => if yes then .ok true else g.ownAnswer s t

/-- May the source run before the target? From another function, the callers of the source's
function are asked first. -/
def isPredecessorGo (g : Graph) : Nat → NodeId → NodeId → Result Bool
  | 0, _, _ => .error .endless
  | fuel + 1, s, t => g.turn s t fun c => isPredecessorGo g fuel c t

def isPredecessor (source target : NodeId) : Result Bool :=
  g.isPredecessorGo (g.size + 2) source target

end ParallelPatterns.Graph
