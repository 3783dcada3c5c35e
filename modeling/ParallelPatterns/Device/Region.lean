import ParallelPatterns.Device.TransferPoint

/-!
# Combined regions

Regions for an accelerator that are reached from each other inside of a function are combined, so
that data can stay on the device between them. A combined region knows the updates between host and
device that its functions need, and the points where data enters and leaves the device.
-/

namespace ParallelPatterns

open Analysis

/-- Regions that share their data on the device. -/
structure CombinedRegion where
  site : PatternSite
  regions : List GpuRegion
  device : List NodeId
  updates : List Json := []
  entryPoints : List Json := []
  exitPoints : List Json := []
  dependIn : List (String × NodeId × LineId) := []
  dependOut : List (String × NodeId × LineId) := []
  folder : String
  deriving Inhabited

namespace CombinedRegion

def attributes (r : CombinedRegion) (e : PatternEncoding) : List (String × Json) :=
  let deps (ds : List (String × NodeId × LineId)) : Json :=
    .arr (ds.map fun (n, id, line) => .strings [n, id, line])
  [("project_folder_path", .str r.folder)] ++ r.site.attributes ++
    [("contained_regions", .arr (r.regions.map fun g => e.part (g.attributes e))),
      ("device_cu_ids", .strings r.device), ("update_instructions", .arr r.updates),
      ("data_region_entry_points", .arr r.entryPoints), ("data_region_exit_points", .arr r.exitPoints),
      ("data_region_depend_in", deps r.dependIn), ("data_region_depend_out", deps r.dependOut),
      ("meta_device_liveness", .obj []), ("meta_host_liveness", .obj [])]

def text (g : Graph) (files : Files) (r : CombinedRegion) : Result String := do
  let _ ← r.regions.mapM (GpuRegion.text g files)
  .error .missingProperty

def root (r : CombinedRegion) : NodeId := (r.regions.map (·.site.node)).headD ""

end CombinedRegion

/-- What the data of a scope does, found out step by step. -/
structure DataMovement where
  updates : List DeviceUpdate
  entries : List TransferPoint
  exits : List TransferPoint

/-- The data that moves, from what is known of the regions, of the writes and of what is live. -/
def Graph.movementAlong (g : Graph) (s : DeviceScope) (known : UnitRegions) (writes : WritesByDevice)
    (graphs : Table NodeId FlowGraph) (hostLive deviceLive : Liveness) : Result DataMovement := do
  let flowOf (f : NodeId) : FlowGraph := graphs.getD f { nodes := [], links := [] }
  let updates ← g.updatesAlong s writes flowOf
  let names ← known.toNames.toFunctions g
  let updates ← updates.mapM fun u => u.withoutMarks.withNames g names
  let deviceLive ← g.extendAlongFunctions graphs deviceLive
  let hostLive ← g.extendAlongFunctions graphs hostLive
  let updates ← updates.mapM fun u => u.withAliases g names
  let live : Table Int Liveness := ⟨[(0, hostLive), (1, deviceLive)]⟩
  let t ← Transfers.ofUpdates g live updates
  let ends ← endOfLifeExits g t.entries t.exits live names
  let exits := ends.foldl (addElement TransferPoint.repeats (·.regions)) t.exits
  let points (ps : List TransferPoint) : List TransferPoint :=
    joinElements TransferPoint.position TransferPoint.join (dropRepeated TransferPoint.repeats ps)
  return {
    updates := joinElements DeviceUpdate.position DeviceUpdate.join
      (dropRepeated DeviceUpdate.repeats t.updates)
    entries := points t.entries
    exits := points exits }

def dataMovement (s : DeviceScope) (loops : List GpuLoop) : Analysis DataMovement := do
  let g ← graph
  let (written, _) ← lift (g.accessedRegions s.roots)
  let known ← lift (g.unitRegions s.roots)
  let live ← lift (g.liveInLoops loops)
  let deviceLive := (addRegions live known).spread.toRegions
  let hostLive := (← lift (g.hostLiveness s)).toRegions
  let (deviceWrites, next) := RegionWrites.ofLiveness g.nextWrite deviceLive written
  let (hostWrites, next) := RegionWrites.ofLiveness next hostLive written
  modify fun g => { g with nextWrite := next }
  let writes : WritesByDevice :=
    ⟨[(0, hostWrites.dropOverwritten.byUnit), (1, deviceWrites.dropOverwritten.byUnit)]⟩
  let graphs ← lift (g.unrolledFunctions false)
  let writes ← addCallAccesses true writes
  query (·.movementAlong s known writes graphs hostLive deviceLive)

def combinedRegion (files : Files) (folder : String) (regions : List GpuRegion) :
    Analysis CombinedRegion := do
  let site ← query (PatternSite.around · (regions.map (·.site)))
  let device := distinct (regions.flatMap (·.units))
  let scope : DeviceScope := { device, roots := regions.map (·.site.node) }
  let m ← dataMovement scope (regions.flatMap (·.loops))
  let g ← graph
  let updates ← m.updates.mapM fun u => lift (u.nameReport g files folder)
  let entryPoints ← m.entries.mapM fun p => lift (p.report g files folder)
  let exitPoints ← m.exits.mapM fun p => lift (p.report g files folder)
  let ds := distinct (m.updates.flatMap (·.dependences) ++ (m.entries ++ m.exits).flatMap (·.dependences))
  let (dependIn, dependOut) ← lift (dependenceReports g ds)
  return { site, regions, device, updates, entryPoints, exitPoints, dependIn, dependOut, folder }

def orderedPairs {α : Type} (xs : List α) : List ((Nat × α) × (Nat × α)) :=
  let numbered := xs.zipIdx.map fun (x, i) => (i, x)
  numbered.flatMap fun a => (numbered.filter fun b => a.1 != b.1).map fun b => (a, b)

namespace Graph

def pairsInFunction (g : Graph) (rs : List CombinedRegion) : List (Nat × Nat) :=
  distinct ((orderedPairs rs).flatMap fun ((i, a), (j, b)) =>
    (g.children a.root).flatMap fun c => (g.children b.root).filterMap fun d =>
      if c.alike d then none
      else if g.reachable d c [.successor] then some (i, j)
      else if g.reachable c d [.successor] then some (j, i)
      else none)

def alwaysFollows (g : Graph) (a b : CombinedRegion) : Bool :=
  let goals := g.children b.root
  let isGoal (id : NodeId) : Bool := (g.node? id).any (·.among goals)
  let next (id : NodeId) : List NodeId := if isGoal id then [] else (g.successors id).map (·.id)
  let reached := Search.depthFirst next (g.size + 1) ((g.children a.root).map (·.id)) []
  reached.all fun id => isGoal id || !(g.successors id).isEmpty

def pairsInSuccession (g : Graph) (rs : List CombinedRegion) (pairs : List (Nat × Nat)) :
    List (Nat × Nat) :=
  pairs.filter fun (i, j) =>
    match rs[i]?, rs[j]? with
    | some a, some b => g.alwaysFollows a b
    | _, _ => false

end Graph

def combinedPair (files : Files) (folder : String) (single : List CombinedRegion) (p : Nat × Nat) :
    Analysis (Option CombinedRegion) := do
  match single[p.1]?, single[p.2]? with
  | some a, some b => return some (← combinedRegion files folder (a.regions ++ b.regions))
  | _, _ => return none

def placesAlone (n : Nat) (pairs : List (Nat × Nat)) : List Nat :=
  (List.range n).filter fun i => !pairs.any fun p => p.1 == i || p.2 == i

def detectCombined (files : Files) (folder : String) (regions : List GpuRegion) :
    Analysis (List CombinedRegion) := do
  let single ← regions.mapM fun r => combinedRegion files folder [r]
  let pairs := (← graph).pairsInFunction single
  let combined ← pairs.filterMapM (combinedPair files folder single)
  let alone := (placesAlone single.length pairs).filterMap fun i => single[i]?
  return alone ++ combined

end ParallelPatterns
