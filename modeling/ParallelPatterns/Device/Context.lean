import ParallelPatterns.Device.Writes
import ParallelPatterns.Graph.Reachability

/-!
# Following the data

A context follows one way through the program. It stands at a node, on a device, and remembers for
each device and region which writes the device has seen and where they were made. Entering the next
node adds its writes; if another device has seen writes to a region that the device of the node also
uses, an update of the region is needed.
-/

namespace ParallelPatterns

abbrev SeenWrite := Option Int × NodeId

/-- A node that has to wait for another, because of data that is on its way between host and
device. -/
structure DeviceDependence where
  /-- Tells dependences with the same content apart. -/
  mark : Nat
  source : NodeId
  sink : NodeId
  names : List String
  regions : List Region
  deriving DecidableEq, Repr, Inhabited

/-- Data that has to be brought up to date between two nodes. -/
structure DeviceUpdate where
  source : NodeId
  asyncSource : Option NodeId := none
  sink : NodeId
  regions : List Region
  names : List String := []
  kind : TransferKind
  lastWrites : List (Region × NodeId)
  asyncPossible : Bool := false
  dependences : List DeviceDependence := []
  deriving DecidableEq, Repr, Inhabited

structure DeviceContext where
  node : NodeId
  device : Int
  seen : Table Int (Table Region (List SeenWrite)) := ∅
  deriving Inhabited

abbrev Tracking := ExceptT Failure (StateM DeviceContext)

def Tracking.runOn {α : Type} (t : Tracking α) (c : DeviceContext) : Result α × DeviceContext :=
  (ExceptT.run t).run c

namespace DeviceContext

def knows (ws : List SeenWrite) (ident : Option Int) : Bool := ws.any fun w => w.1 == ident

variable (c : DeviceContext)

def seenOn (device : Int) : Result (Table Region (List SeenWrite)) :=
  match c.seen.get? device with
  | some t => .ok t
  | none => .error .unknownKey

def withSeen (device : Int) (t : Table Region (List SeenWrite)) : DeviceContext :=
  { c with seen := c.seen.insert device t }

def addWrites (ws : List SeenWrite) (idents : List (Option Int)) (origin : NodeId) : List SeenWrite :=
  idents.foldl (fun ws i => if knows ws i then ws else ws ++ [(i, origin)]) ws

def isNewRegion (device : Int) (r : Region) : Result Bool := do
  let here ← c.seenOn device
  if here.contains r then return false
  return !(← c.seenOn c.device).contains r

def query {α : Type} (f : DeviceContext → Result α) : Tracking α := do
  match f (← get) with
  | .ok a => pure a
  | .error e => throw e

def noteRegion (device : Int) (origin : NodeId) (r : Region) (idents : List (Option Int)) :
    Tracking (List (Region × Bool)) := do
  let fresh ← query fun c => c.isNewRegion device r
  let old ← query fun c => do return (← c.seenOn device).getD r []
  modify fun c => c.withSeen device ((c.seen.getD device ∅).insert r (addWrites old idents origin))
  return if idents.all (knows old) then [] else [(r, fresh)]

def noteWrites (device : Int) (writes : Table Region (List (Option Int))) (origin : NodeId) :
    Tracking (List (Region × Bool)) := do
  modify fun c => { c with seen := c.seen.insertNew device ∅ }
  let changed ← writes.entries.mapM fun (r, idents) => noteRegion device origin r idents
  return changed.flatten

variable (before : NodeId → NodeId → Result Bool)

/-- Of places where writes were made, the last one: a later place replaces an earlier one that may
run before it. -/
def lastPlace : List SeenWrite → Result (Option NodeId)
  | [] => .ok none
  | (_, first) :: rest => do
    let _ ← before first first
    let last ← rest.foldlM (fun last (_, place) => do
      return if ← before last place then place else last) first
    return some last

/-- A region that has to be brought from one device to another, with the place of the last write. -/
structure Need where
  region : Region
  source : Int
  target : Int
  place : NodeId
  deriving DecidableEq, Repr

def needFor (r : Region) (source target : Int)
    (missing : List SeenWrite) : Result (Option Need) := do
  return (← lastPlace before missing).map fun place => { region := r, source, target, place }

def requirement (c : DeviceContext) (device : Int) (r : Region)
    (ws : List SeenWrite) : Result (Option Need) := do
  match (← c.seenOn device).get? r with
  | none => return none
  | some known =>
    needFor before r c.device device (ws.filter fun w => w.1.isSome && !knows known w.1)

def requiredUpdates (c : DeviceContext) (device : Int) :
    Result (List Need) := do
  let here ← c.seenOn c.device
  let needs ← here.entries.mapM fun (r, ws) => c.requirement before device r ws
  return needs.filterMap id

/-- Shows a new device all that the context's device has seen of the regions that both use. -/
def synchronise (device : Int) : Tracking Unit := do
  let here ← query fun c => c.seenOn c.device
  if here.entries.isEmpty then return ()
  let there ← query fun c => c.seenOn device
  let there := there.map fun r ws => addAll ws (here.getD r [])
  modify fun c => c.withSeen device there

def request (device : Int) (r : Region) (known : List SeenWrite)
    (other : Int) (t : Table Region (List SeenWrite)) : Result (Option Need) :=
  match t.get? r with
  | none => .ok none
  | some ws => needFor before r other device (ws.filter fun w => !knows known w.1)

def others (device : Int) : List (Int × Table Region (List SeenWrite)) :=
  c.seen.entries.filter fun e => e.1 != device

def missingOn (c : DeviceContext) (device : Int) :
    Result (List Need) := do
  let there ← c.seenOn device
  let needs ← there.entries.mapM fun (r, known) =>
    (c.others device).mapM fun (other, t) => request before device r known other t
  return needs.flatten.filterMap id

def readMarks (device : Int) (there : Table Region (List SeenWrite)) : List (Region × SeenWrite) :=
  there.entries.flatMap fun (r, ws) =>
    if (c.others device).any fun e => e.2.contains r then
      (ws.filter fun w => w.1.isNone).map fun w => (r, w)
    else []

def receive (needs : List Need) (there : Table Region (List SeenWrite)) : Table Region (List SeenWrite) :=
  needs.foldl (fun t n =>
    let ws := ((c.seen.get? n.source).getD ∅).getD n.region []
    t.update n.region [] fun known => addAll known (ws.filter fun w => !knows known w.1)) there

/-- Asks the other devices for the regions of a new device: what they have seen more is seen by the
new device, too, and its marks for reading are dropped where another device knows the region. -/
def requestUpdates (device : Int) : Tracking (List Need) := do
  let needs ← query fun c => c.missingOn before device
  let there ← query fun c => c.seenOn device
  modify fun c =>
    let reads := c.readMarks device there
    c.withSeen device
      ((c.receive needs there).map fun r ws => ws.filter fun w => !reads.contains (r, w))
  return needs

def updateFor (source sink : NodeId) (n : Need) : Result DeviceUpdate := do
  return {
    source, sink, regions := [n.region], kind := ← TransferKind.between n.source n.target
    lastWrites := [(n.region, n.place)] }

def enter (device : Int) (writes : WritesByDevice)
    (next : NodeId) : Tracking (List DeviceUpdate) := do
  match writes.get? device with
  | none => throw .unknownKey
  | some units =>
    let _ ← noteWrites device (units.getD next ∅) next
    let required ← query fun c => c.requiredUpdates before device
    synchronise device
    let requested ← requestUpdates before device
    let source := (← get).node
    let updates ← query fun _ => (required ++ requested).mapM (updateFor source next)
    modify fun c => { c with node := next, device }
    return distinct updates

end DeviceContext

end ParallelPatterns
