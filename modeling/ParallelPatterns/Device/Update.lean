import ParallelPatterns.Device.CallAccess
import ParallelPatterns.Device.Context
import ParallelPatterns.Device.Unroll
import ParallelPatterns.Graph.PostDominators

/-!
# Updates between host and device

The unrolled graph of a function is followed from its entries to its ends, each branch with its own
context; all updates that the contexts need are collected. An update is first known by the regions
that it concerns, and then gets the names of the variables.
-/

namespace ParallelPatterns

open Text

def DeviceScope.deviceOf (s : DeviceScope) (id : NodeId) : Int := if s.device.contains id then 1 else 0

def followGo (before : NodeId → NodeId → Result Bool) (s : DeviceScope) (writes : WritesByDevice)
    (flow : FlowGraph) : Nat → DeviceContext → NodeId → List NodeId → Result (List DeviceUpdate)
  | 0, _, _, _ => .error .endless
  | fuel + 1, c, id, visited => do
    let (r, c) := Tracking.runOn (DeviceContext.enter before (s.deviceOf id) writes id) c
    let updates ← r
    match flow.successors id with
    | [] => return updates
    | [next] =>
      if next == id then return updates
      else return addAll updates (← followGo before s writes flow fuel c next visited)
    | nexts =>
      nexts.foldlM (fun updates next => do
        if visited.contains next then return updates
        return addAll updates (← followGo before s writes flow fuel c next (visited ++ [next]))) updates

namespace Graph

variable (g : Graph)

/-- The units at which a function is entered: direct children without predecessors. -/
def entryUnits (f : NodeId) : List NodeId :=
  ((g.children f).filter fun n => n.isUnit && (g.inEdgesOf n.id [.successor]).isEmpty).map (·.id)

def entryContext (s : DeviceScope) (writes : WritesByDevice) (entry : NodeId) : Result DeviceContext := do
  let device := s.deviceOf entry
  let own := WritesByDevice.ofNode writes device entry
  let (r, c) := Tracking.runOn (DeviceContext.noteWrites device own entry) { node := entry, device }
  let _ ← r
  return c

def updatesAlong (s : DeviceScope) (writes : WritesByDevice) (flowOf : NodeId → FlowGraph) :
    Result (List DeviceUpdate) := do
  let functions ← g.scopeFunctions s.roots
  functions.foldlM (fun updates f =>
    (g.entryUnits f.id).foldlM (fun updates entry => do
      let c ← entryContext s writes entry
      let flow := flowOf f.id
      return addAll updates
        (← followGo g.isPredecessor s writes flow (flow.nodes.length + 2) c entry [])) updates) []

def isMergePoint (id : NodeId) : Result Bool := do
  let n ← g.node id
  match n.unit? with
  | none => return false
  | some b =>
    if !has "return" (b.block.getD "None") then return true
    return n.finish != (← g.parentFunction n).finish

def firstMergePoint (g : Graph) : List NodeId → Result (Option NodeId)
  | [] => .ok none
  | id :: rest => do if ← g.isMergePoint id then return some id else firstMergePoint g rest

/-- Walks up the post-dominators of several nodes until they have one in common at which their ways
can join. `current` are the post-dominators reached, `visited` those passed by each way. A
post-dominator that has none becomes its own. -/
def mergeNodeGo (g : Graph) : Nat → Table NodeId NodeId → List NodeId → List (List NodeId) →
    Result (Option NodeId × Table NodeId NodeId)
  | 0, _, _, _ => .error .endless
  | fuel + 1, dominators, current, visited => do
    let common := visited.foldl (fun c v => c.filter v.contains) (visited.headD [])
    match ← g.firstMergePoint common with
    | some id => return (some id, dominators)
    | none =>
      if current.isEmpty then return (none, dominators)
      let visited := common :: visited.drop 1
      let visited := visited.mapIdx fun i v =>
        match current[i]? with
        | some d => addNew v d
        | none => v
      let dominators := current.foldl (fun t d => t.insertNew d d) dominators
      let next := current.filterMap fun d =>
        let up := dominators.getD d d
        if up == d then none else some up
      mergeNodeGo g fuel dominators next visited

/-- The node at which the ways through several successors join. -/
def mergeNode (successors : List NodeId) : Result (Option NodeId × Graph) := do
  match successors with
  | [] => .error .noSuccessors
  | first :: _ =>
    let f ← g.parentFunction (← g.node first)
    let b ← f.function?.getDM (.error .missingProperty)
    let (dominators, g) ← g.postDominators f.id b
    let current ← successors.mapM fun id => (dominators.get? id).getDM (.error .unknownKey)
    let visited := (successors.zip current).map fun (id, d) => distinct [d, id]
    let (r, t) ← g.mergeNodeGo (g.size + 2) dominators current visited
    return (r, g.modifyNode f.id fun n => n.modifyFunction fun b => { b with postDominators := some t })

end Graph

namespace DeviceUpdate

def unmarked (id : NodeId) : NodeId :=
  if begins Graph.copyMark id then drop Graph.copyMark.length id else id

def withoutMarks (u : DeviceUpdate) : DeviceUpdate :=
  { u with source := unmarked u.source, sink := unmarked u.sink }

def namesOf (names : RegionNames) (f source sink : NodeId) (r : Region) : Result (List String) :=
  match names.get? r with
  | none => .error .unknownKey
  | some byNode =>
    match byNode.get? f, byNode.get? source, byNode.get? sink with
    | some ns, _, _ => .ok ns
    | none, some ns, _ => .ok ns
    | none, none, some ns => .ok ns
    | none, none, none => .ok ["UNDETERMINED(" ++ r ++ ")"]

def withNames (g : Graph) (names : RegionNames) (u : DeviceUpdate) : Result DeviceUpdate := do
  let f ← g.parentFunction (← g.node u.source)
  let ns ← u.regions.mapM (namesOf names f.id u.source u.sink)
  return { u with names := distinct ns.flatten }

def position (u : DeviceUpdate) : NodeId × Option NodeId × TransferKind :=
  (u.sink, if u.asyncPossible then u.asyncSource else some u.source, u.kind)

end DeviceUpdate

def typeAt (g : Graph) (sink : NodeId) (source : Option NodeId) (name : String) :
    Result (Option String) := do
  let found ← match ← g.findVariable sink name with
    | some v => pure (some v)
    | none => g.findVariable (← source.getDM (.error .unknownKey)) name
  match found with
  | none => return some ""
  | some v => return v.type

/-- Names as arguments of a clause: pointers to pointers are marked as arrays. The sizes of the
regions must be readable. -/
def clauseNames (g : Graph) (files : Files) (folder : String) (sink : NodeId) (source : Option NodeId)
    (names : List String) (regions : List Region) : Result (List String) := do
  let types ← names.mapM fun n => do return (n, ← typeAt g sink source n)
  let _ ← MemoryRegions.sizes files (Files.join folder "memory_regions.txt") regions
  types.mapM fun (n, type) => do
    return if has "**" (← type.getDM (.error .wrongSort)) then n ++ "[:]" else n

namespace DeviceUpdate

def start (u : DeviceUpdate) : Option NodeId := if u.asyncPossible then u.asyncSource else some u.source

def regionReport (g : Graph) (u : DeviceUpdate) : Result Json := do
  let n ← g.node u.source
  return .arr [.str u.source, .str u.sink, .int u.kind.number,
    .str (setLiteral (u.regions.map literal)), .str n.finish]

def nameReport (g : Graph) (files : Files) (folder : String) (u : DeviceUpdate) : Result Json := do
  let ns ← clauseNames g files folder u.sink u.start u.names u.regions
  let n ← g.node u.sink
  return .arr [.str u.source, .str u.sink, .int u.kind.number, .str (",".intercalate ns), .str n.start]

def fullReport (g : Graph) (files : Files) (folder : String) (u : DeviceUpdate) : Result Json := do
  let ns ← clauseNames g files folder u.sink u.start u.names u.regions
  let n ← g.node u.source
  return .arr [.str u.source, .str u.sink, .int u.kind.number,
    .str (listLiteral (ns.map literal) ++ "/" ++
      setLiteral (u.regions.map literal)), .str n.finish]

def text (u : DeviceUpdate) : String :=
  if !u.asyncPossible then ""
  else
    let places := u.lastWrites.map fun (r, id) => literal r ++ ": " ++ literal id
    toString u.kind.number ++ " @ " ++ u.source ++ " -> " ++ u.sink ++ " : " ++
      setLiteral (u.names.map literal) ++ "/" ++
      setLiteral (u.regions.map literal) ++
      " last_writes@ \x7b" ++ ", ".intercalate places ++ "\x7d async "

end DeviceUpdate

end ParallelPatterns
