import ParallelPatterns.Device.Access
import ParallelPatterns.Device.TransferKind
import ParallelPatterns.Gpu.Region

/-!
# Where data is live

A variable is live on the device in the units of the loops that map it, and live on the host in the
units outside that share it with the device. Liveness of variables becomes liveness of the memory
regions behind them.
-/

namespace ParallelPatterns

abbrev Liveness := Table Region (List NodeId)

abbrev VariableLiveness := Table String (List (NodeId × List Region))

namespace Graph

variable (g : Graph)

def liveInLoops (loops : List GpuLoop) : Result (Table String (List NodeId)) :=
  loops.foldlM (fun t l => do
    let units := (g.subtreeUnits (← g.node l.site.node)).map (·.id)
    let vs := l.mapTo ++ l.mapToFrom ++ l.mapFrom ++ l.mapAlloc ++ l.reductionVariables
    return vs.foldl (fun t v => t.update (v.name.getD "") [] fun ids => ids ++ units) t) ∅

/-- Adds the nodes in which updates keep a variable alive on the device. -/
def liveByUpdates (updates : List (NodeId × NodeId × TransferKind × String))
    (t : Table String (List NodeId)) : Result (Table String (List NodeId)) :=
  updates.foldlM (fun t (source, sink, kind, var) =>
    match kind with
    | .toDevice => .ok (t.update var [] fun ids => ids ++ [sink])
    | .fromDevice => .ok (t.update var [] fun ids => ids ++ [source])
    | k => .error (.unsupportedLiveTransfer k.literal)) t

def bodyNodes (function : NodeId) : List NodeId :=
  let next (id : NodeId) : List NodeId :=
    let called := (g.outEdgesOf id [.call]).map (·.target)
    ((g.outEdgesOf id [.child]).map (·.target)).filter fun c => !called.contains c
  Search.breadthFirst next (g.size + 1) ((g.outEdgesOf function [.child]).map (·.target)) []

def sharedWithDevice (device : List NodeId) (n : Node) : List Dependence :=
  (g.subtreeUnits n).flatMap fun u =>
    ((g.outData u.id).filter fun e => device.contains e.target).map (·.dep) ++
    ((g.inData u.id).filter fun e => device.contains e.source).map (·.dep)

def hostLiveness (s : DeviceScope) : Result VariableLiveness := do
  let fs ← g.scopeFunctions s.roots
  let ids := (distinct (fs.flatMap fun f => g.bodyNodes f.id)).filter fun id => !s.device.contains id
  ids.foldlM (fun (t : VariableLiveness) id => do
    let deps := g.sharedWithDevice s.device (← g.node id)
    let regions := distinct (deps.filterMap (·.region))
    return (distinct (deps.filterMap (·.var))).foldl (fun t v =>
      t.update v [] fun es => es ++ [(id, regions)]) t) ∅

end Graph

def addRegions (live : Table String (List NodeId)) (known : UnitRegions) : VariableLiveness :=
  live.map fun var ids => ids.map fun id => (id, ((known.get? id).bind (·.get? var)).getD [])

namespace VariableLiveness

def spread (t : VariableLiveness) : VariableLiveness :=
  t.map fun _ es =>
    let regions := distinct (es.flatMap (·.2))
    es.map fun e => (e.1, regions)

def toRegions (t : VariableLiveness) : Liveness :=
  t.entries.foldl (fun out (_, es) =>
    es.foldl (fun out (id, regions) =>
      regions.foldl (fun out r => out.update r [] fun ids => ids ++ [id]) out) out) ∅

end VariableLiveness

def livenessLines (g : Graph) (live : Liveness)
    (writes : Table Region (List (NodeId × Option Int))) : Result (Table Region (List String)) := do
  let es ← (live.entries.filter fun (_, ids) => !ids.isEmpty).mapM fun (r, ids) => do
    let lines ← ids.mapM fun id => do
      let n ← g.node id
      let ws ← (writes.get? r).getDM (.error .unknownKey)
      let idents := distinct (ws.filterMap fun (u, w) => if u == id then w else none)
      let mark := if idents.isEmpty then ":" else
        ":(" ++ ",".intercalate ((idents.mergeSort fun a b => a ≤ b).map toString) ++ ")"
      return (← linesBetween n.start n.finish).map (· ++ mark)
    let lines := distinct lines.flatten
    -- a line that is only read here and written there is a written line
    return (r, lines.filter fun l =>
      !(Text.ends ":" l && lines.any fun o => Text.begins (l ++ "(") o))
  return ⟨es⟩

end ParallelPatterns
