import ParallelPatterns.Device.Lifespan
import ParallelPatterns.Device.Update

/-!
# Where data enters and leaves the device

An update whose data was not live on the device before is where the data enters the device, and an
update whose data is not live there afterwards is where it leaves. Where live data ends without
being brought back, it is deleted from the device, unless another function still reads it.
-/

namespace ParallelPatterns

/-- How data enters or leaves the device. -/
inductive PointKind where
  | toDevice
  | allocate
  | asyncToDevice
  | fromDevice
  | delete
  | asyncFromDevice
  deriving DecidableEq, Repr, Inhabited

namespace PointKind

def isEntry : PointKind → Bool
  | toDevice | allocate | asyncToDevice => true
  | fromDevice | delete | asyncFromDevice => false

def name : PointKind → String
  | toDevice => "TO_DEVICE"
  | allocate => "ALLOCATE"
  | asyncToDevice => "ASYNC_TO_DEVICE"
  | fromDevice => "FROM_DEVICE"
  | delete => "DELETE"
  | asyncFromDevice => "ASYNC_FROM_DEVICE"

def number : PointKind → Int
  | toDevice => 0
  | allocate => 1
  | asyncToDevice => 2
  | fromDevice => 0
  | delete => 1
  | asyncFromDevice => 2

end PointKind

/-- A point where data enters or leaves the device. -/
structure TransferPoint where
  names : List String
  regions : List Region
  source : NodeId
  sink : NodeId
  kind : PointKind
  line : LineId
  dependences : List DeviceDependence := []
  deriving DecidableEq, Repr, Inhabited

def sameMembers {α : Type} [BEq α] (a b : List α) : Bool := a.all b.contains && b.all a.contains

namespace TransferPoint

def make (g : Graph) (names : List String) (regions : List Region) (source sink : NodeId)
    (kind : PointKind) : Result TransferPoint := do
  return { names, regions, source, sink, kind, line := (← g.node sink).start }

def repeats (a b : TransferPoint) : Bool :=
  sameMembers a.names b.names && a.source == b.source && a.sink == b.sink && a.kind == b.kind &&
    a.line == b.line && sameMembers a.dependences b.dependences

def position (p : TransferPoint) : NodeId × NodeId × PointKind := (p.sink, p.source, p.kind)

def join (a b : TransferPoint) : TransferPoint :=
  { a with
    names := addAll a.names b.names
    regions := addAll a.regions b.regions
    dependences := addAll a.dependences b.dependences }

def report (g : Graph) (files : Files) (folder : String) (p : TransferPoint) : Result Json := do
  let ns ← clauseNames g files folder p.sink (some p.source) p.names p.regions
  return .arr [.str (",".intercalate ns), .str p.source, .str p.sink, .int p.kind.number,
    .str p.line, .int 0]

def text (p : TransferPoint) : String :=
  (if p.kind.isEntry then "EntryPoint(" else "ExitPoint(") ++
    Text.setLiteral (p.names.map Text.literal) ++ ", " ++
    Text.setLiteral (p.regions.map Text.literal) ++ ", @ " ++ p.source ++ " -> " ++ p.sink ++ " : " ++
    toString p.kind.number ++ ")"

end TransferPoint

namespace DeviceUpdate

def repeats (a b : DeviceUpdate) : Bool :=
  a.source == b.source && a.asyncSource == b.asyncSource && a.sink == b.sink &&
    sameMembers a.names b.names && a.kind == b.kind && a.lastWrites == b.lastWrites &&
    a.asyncPossible == b.asyncPossible && sameMembers a.dependences b.dependences

def join (a b : DeviceUpdate) : DeviceUpdate :=
  { a with
    names := addAll a.names b.names
    regions := addAll a.regions b.regions
    dependences := addAll a.dependences b.dependences }

end DeviceUpdate

def addElement {α : Type} (repeats : α → α → Bool) (regions : α → List Region) (xs : List α)
    (x : α) : List α :=
  if xs.any fun y => repeats y x && sameMembers (regions y) (regions x) then xs else xs ++ [x]

def dropRepeated {α : Type} (repeats : α → α → Bool) (xs : List α) : List α :=
  (xs.zipIdx.filter fun (x, i) => !xs.zipIdx.any fun (y, j) => i != j && repeats x y).map (·.1)

def joinElements {α κ : Type} [BEq κ] (position : α → κ) (join : α → α → α) (xs : List α) : List α :=
  let groups : Table κ α := xs.foldl (fun t x =>
    match t.get? (position x) with
    | some first => t.insert (position x) (join first x)
    | none => t.insert (position x) x) ∅
  groups.values

structure Transfers where
  entries : List TransferPoint := []
  exits : List TransferPoint := []
  updates : List DeviceUpdate := []
  deriving Inhabited

def liveOnDevice (live : Table Int Liveness) (regions : List Region) (id : NodeId) : Result Bool := do
  if regions.isEmpty then return false
  let t ← (live.get? 1).getDM (.error .unknownKey)
  return regions.any fun r => (t.getD r []).contains id

variable (g : Graph)

def Transfers.add (live : Table Int Liveness) (t : Transfers) (u : DeviceUpdate) :
    Result Transfers := do
  let point (kind asyncKind : PointKind) : Result TransferPoint := do
    if u.asyncPossible then
      let p ← TransferPoint.make g u.names u.regions (u.asyncSource.getD "") u.sink asyncKind
      return { p with dependences := u.dependences }
    else TransferPoint.make g u.names u.regions u.source u.sink kind
  let asUpdate : Transfers :=
    { t with updates := addElement DeviceUpdate.repeats (·.regions) t.updates u }
  let addPoint (ps : List TransferPoint) (p : TransferPoint) : List TransferPoint :=
    addElement TransferPoint.repeats (·.regions) ps p
  match u.kind with
  | .toDevice =>
    if ← liveOnDevice live u.regions u.source then return asUpdate
    return { t with entries := addPoint t.entries (← point .toDevice .asyncToDevice) }
  | .allocate =>
    if ← liveOnDevice live u.regions u.source then return asUpdate
    let p ← TransferPoint.make g u.names u.regions u.source u.sink .allocate
    return { t with entries := addPoint t.entries p }
  | .fromDevice =>
    if ← liveOnDevice live u.regions u.sink then return asUpdate
    return { t with exits := addPoint t.exits (← point .fromDevice .asyncFromDevice) }
  | .both => .error (.unsupportedTransferKind u.kind.literal)

def Transfers.ofUpdates (live : Table Int Liveness) (us : List DeviceUpdate) :
    Result Transfers :=
  us.foldlM (Transfers.add g live) {}

/-- Adds names and regions that belong together in a function, until nothing is added. Nothing
bounds the number of rounds: the result is `none` if there is no last one. -/
def Table.aliasesGo (names : Table Region (List String)) (ns : List String) (rs : List Region) :
    Option (List String × List Region) :=
  let ns' := addAll ns (rs.flatMap fun r => names.getD r [])
  let rs' := addAll rs ((names.entries.filter fun e => e.2.any ns'.contains).map (·.1))
  if ns'.length == ns.length && rs'.length == rs.length then some (ns', rs')
  else names |>.aliasesGo ns' rs'
partial_fixpoint

def RegionNames.inFunction (names : RegionNames) (f : NodeId) : Table Region (List String) :=
  ⟨names.entries.filterMap fun (r, byNode) => (byNode.get? f).map fun ns => (r, ns)⟩

def DeviceUpdate.withAliases (names : RegionNames) (u : DeviceUpdate) :
    Result DeviceUpdate := do
  let f ← g.parentFunction (← g.node u.source)
  let h ← g.parentFunction (← g.node u.sink)
  if !f.alike h then return u
  let own := RegionNames.inFunction names f.id
  if u.regions.any fun r => !own.contains r then .error .unknownKey
  match own.aliasesGo u.names u.regions with
  | none => .error .endless
  | some (ns, rs) =>
    let dependences := u.dependences.map fun d =>
      { d with names := addAll d.names ((rs.filter d.regions.contains).flatMap fun r => own.getD r []) }
    return { u with names := ns, regions := rs, dependences }

/-- Where the lifespan of regions on a device ends: between two nodes. -/
structure LifeEnd where
  source : NodeId
  sink : NodeId
  regions : List Region
  deriving Repr, Inhabited

namespace LifeEnd

/-- The regions that enter or leave the device together with a region; only itself if there are
none. -/
def together (points : List TransferPoint) (r : Region) : List Region :=
  let all := distinct ((points.filter fun p => p.regions.contains r).flatMap (·.regions))
  if all.isEmpty then [r] else all

variable (g : Graph)

def ofLiveness (points : List TransferPoint) (live : Table Int Liveness) :
    Result (List LifeEnd) :=
  (live.entries.filter fun e => e.1 != 0).foldlM (fun ends (_, t) =>
    t.entries.foldlM (fun (ends : List LifeEnd) (r, ids) =>
      ids.foldlM (fun (ends : List LifeEnd) id => do
        let n ← g.node id
        return ((g.successors n.id).filter fun s => !ids.contains s.id).foldl (fun ends s =>
          addElement (fun o e => o.source == e.source && o.sink == e.sink) (·.regions) ends
            { source := id, sink := s.id, regions := together points r }) ends) ends) ends) []

def isCovered (exit : TransferPoint) (e : LifeEnd) : Result Bool := do
  let before (a b c d : NodeId) : Result Bool := do
    if ← g.isPredecessor a b then g.isPredecessor c d else return false
  let ordered ←
    if ← before exit.source e.source exit.sink e.sink then pure true
    else before e.source exit.source e.sink exit.sink
  return ordered && exit.regions.any e.regions.contains

def isReadElsewhere (e : LifeEnd) : Result Bool := do
  let source ← g.node e.source
  let sink ← g.node e.sink
  (g.between sink source [.successor, .child]).foldlM (fun found id =>
    ((g.inDataOf id .readAfterWrite).filter fun d =>
      d.dep.region.any e.regions.contains).foldlM (fun found d => do
        let reader ← g.parentFunction (← g.node d.source)
        let writer ← g.parentFunction (← g.node d.target)
        return found || !reader.alike writer) found) false

/-- The exit at the end of a lifespan: data that another function reads is brought back, other data
is deleted. -/
def toExit (names : RegionNames) (e : LifeEnd) : Result TransferPoint := do
  let f ← g.parentFunction (← g.node e.source)
  let ns ← e.regions.mapM fun r => do
    return (← (names.get? r).getDM (.error .unknownKey)).getD f.id []
  let kind := if ← e.isReadElsewhere g then .fromDevice else .delete
  TransferPoint.make g (distinct ns.flatten) e.regions e.source e.sink kind

def uncovered (ends : List LifeEnd) (exits : List TransferPoint) : Result (List LifeEnd) :=
  exits.foldlM (fun ends exit => ends.filterM fun e => do return !(← isCovered g exit e)) ends

end LifeEnd

def endOfLifeExits (entries exits : List TransferPoint) (live : Table Int Liveness)
    (names : RegionNames) : Result (List TransferPoint) := do
  let ends ← LifeEnd.ofLiveness g (entries ++ exits) live
  let ends ← LifeEnd.uncovered g ends exits
  ends.foldlM (fun out e => do
    return addElement TransferPoint.repeats (·.regions) out (← e.toExit g names)) []

/-- What has to wait for what: for each dependence and name, the sink with the line where it begins,
and the source with the line where it ends. -/
def dependenceReports (ds : List DeviceDependence) :
    Result (List (String × NodeId × LineId) × List (String × NodeId × LineId)) := do
  let outs ← ds.mapM fun d => d.names.mapM fun n => do return (n, d.source, (← g.node d.source).finish)
  let ins ← ds.mapM fun d => d.names.mapM fun n => do return (n, d.sink, (← g.node d.sink).start)
  return (distinct ins.flatten, distinct outs.flatten)

def DeviceDependence.text (d : DeviceDependence) : String :=
  "Dependency(" ++ d.source ++ " -> " ++ d.sink ++ " " ++ Text.setLiteral (d.names.map Text.literal) ++
    " / " ++ Text.setLiteral (d.regions.map Text.literal) ++ ")"

end ParallelPatterns
