import ParallelPatterns.Device.Liveness
import ParallelPatterns.Device.Unroll

/-!
# Keeping data alive

Data that is live in two nodes of a function can stay where it is in between, so that less has to be
moved. Lifespans are extended over the nodes between live nodes: on the program graph itself, with
the loops around and what lies below, or along the unrolled graphs of functions.
-/

namespace ParallelPatterns

namespace Graph

def simpleWaysGo (g : Graph) (target : NodeId) : Nat → NodeId → List NodeId → List NodeId
  | 0, _, _ => []
  | fuel + 1, id, way =>
    let way := way ++ [id]
    let nexts := distinct ((g.outEdgesOf id [.successor]).map (·.target))
    distinct (nexts.flatMap fun n =>
      if n == target then way ++ [target]
      else if way.contains n then []
      else simpleWaysGo g target fuel n way)

variable (g : Graph)

def nodesBetween (f : FunctionBody) (source target : NodeId) : List NodeId :=
  if source == target || !(f.reach.getD source []).contains target then []
  else g.simpleWaysGo target (g.size + 1) source []

def loopMates (id : NodeId) : Result (List NodeId) := do
  match g.sources (g.inEdgesOf id [.child]) with
  | [] => .error .outOfRange
  | p :: _ => return if p.isLoop then (g.outEdgesOf p.id [.child]).map (·.target) else []

/-- The nodes that one round of the extension of a region's lifespan adds: nodes between live nodes
of a function, with the loops around them, and what lies directly below live nodes. -/
def lifespanRound (live : List NodeId) : Result (List NodeId) := do
  let owners ← live.mapM fun id => do return (id, ← g.parentFunction (← g.node id))
  let way := distinct (owners.flatMap fun (s, f) => owners.flatMap fun (t, h) =>
    if f.id == h.id then
      match f.function? with
      | some b => g.nodesBetween b s t
      | none => []
    else [])
  let below := live.flatMap fun id => (g.outEdgesOf id [.child, .call]).map (·.target)
  let mates ← way.mapM g.loopMates
  let all := addAll way mates.flatten
  let around := all.flatMap fun id =>
    let called := (g.outEdgesOf id [.call]).map (·.target)
    ((g.children id).map (·.id)).filter (fun c => !called.contains c) ++ [id]
  return distinct ((below ++ around).filter fun id => !live.contains id)

def extendRegionGo (g : Graph) : Nat → List NodeId → Result (List NodeId)
  | 0, live => .ok live
  | fuel + 1, live => do
    match ← g.lifespanRound live with
    | [] => return live
    | new => extendRegionGo g fuel (live ++ new)

def extendLifespan (live : Liveness) : Result Liveness := do
  let es ← live.entries.mapM fun (r, ids) => do
    return (r, distinct (← g.extendRegionGo (g.size + 1) ids))
  return ⟨es⟩

/-- Goes on from a node to one of its successors, where `passed` has been passed since the last live
node. At a live successor a new way begins, and what was passed becomes live. Ways stand in reverse
order. -/
def goOn (passed : List NodeId) (found : List NodeId × List (NodeId × List NodeId))
    (successor : NodeId) : List NodeId × List (NodeId × List NodeId) :=
  if found.1.contains successor then (addAll found.1 passed, (successor, []) :: found.2)
  else (found.1, (successor, passed) :: found.2)

/-- Extends the liveness of a region on the ways from `id` through a graph without cycles: nodes
passed on the way from one live node to the next become live. -/
def extendWaysGo (successors : NodeId → List NodeId) :
    Nat → NodeId → List NodeId → List NodeId → Result (List NodeId)
  | 0, _, _, _ => .error .endless
  | fuel + 1, id, passed, live =>
    let found := (successors id).foldl (goOn (passed ++ [id])) (live, [])
    found.2.foldlM (fun live way => extendWaysGo successors fuel way.1 way.2 live) found.1

def extendInFunction (flow : FlowGraph) (children live : List NodeId) : Result (List NodeId) :=
  (children.reverse.filter live.contains).foldlM (fun live id =>
    extendWaysGo flow.successors (flow.nodes.length + 1) id [] live) live

def extendAlong (graphs : Table NodeId FlowGraph) (live : Liveness) (f : Node) : Result Liveness :=
  match graphs.get? f.id, f.function?.bind (·.children) with
  | none, _ => .error .unknownKey
  | some _, none => .error .wrongSort
  | some flow, some children => do
    let es ← live.entries.mapM fun (r, ids) => do
      return (r, ← extendInFunction flow children ids)
    return ⟨es⟩

def extendAlongFunctions (graphs : Table NodeId FlowGraph) (live : Liveness) :
    Result Liveness :=
  g.functions.foldlM (extendAlong graphs) live

end Graph

end ParallelPatterns
