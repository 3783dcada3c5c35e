import ParallelPatterns.Device.Region
import ParallelPatterns.Json.Encode

/-!
# Device data as JSON

Updates, entries and exits of devices, and what a context has seen.
-/

namespace ParallelPatterns

/-- Identifiers of writes form a set. -/
instance : Decode (List (Option Int)) := ⟨fun j => distinct ((j.items?.getD []).map Json.int?)⟩

instance : Encode (List (Option Int)) := ⟨fun ids => encode (Unordered.mk ids)⟩

instance : Encode (List (NodeId × Option Int)) := ⟨fun ws => encode (Unordered.mk ws)⟩

instance : Encode (List (NodeId × List Region)) :=
  ⟨fun ps => encode (Unordered.mk (ps.map fun (id, rs) => (id, Unordered.mk rs)))⟩

instance : Decode TransferKind := ⟨fun j => (TransferKind.ofName? (decode j)).getD .toDevice⟩

instance : Encode TransferKind := ⟨fun k => .str k.name⟩

def DeviceUpdate.ofJson (mark : Nat) (j : Json) : DeviceUpdate :=
  let names := distinct (decode (j.field "vars") : List String)
  let regions := distinct (decode (j.field "mem") : List Region)
  let start : Option String := decode (j.field "async")
  { source := decode (j.field "from"), sink := decode (j.field "to"), regions, names
    kind := decode (j.field "type")
    lastWrites := (decode (j.field "last") : Table Region NodeId).entries
    asyncSource := start, asyncPossible := start.isSome
    dependences := match start with
      | some source => [{ mark, source, sink := decode (j.field "to"), names, regions }]
      | none => [] }

instance : Decode DeviceUpdate := ⟨DeviceUpdate.ofJson 0⟩

instance : Decode (List DeviceUpdate) := ⟨fun j => (j.items?.getD []).mapIdx DeviceUpdate.ofJson⟩

instance : Decode (List DeviceDependence) where
  decode j := (j.items?.getD []).mapIdx fun mark d =>
    { mark, source := decode (d.field "from"), sink := decode (d.field "to")
      names := distinct (decode (d.field "vars")), regions := distinct (decode (d.field "mem")) }

instance : Encode DeviceUpdate where
  encode u := .obj [("from", .str u.source), ("to", .str u.sink),
    ("mem", encode (Unordered.mk u.regions)), ("vars", encode (Unordered.mk u.names)),
    ("type", encode u.kind), ("last", encode (Table.mk u.lastWrites))]

instance : Encode (List DeviceUpdate) := ⟨fun us => encode (Unordered.mk us)⟩

instance : Encode TransferPoint where
  encode p := .obj [("vars", encode (Unordered.mk p.names)), ("mem", encode (Unordered.mk p.regions)),
    ("from", .str p.source), ("to", .str p.sink), ("type", .str p.kind.name), ("line", .str p.line)]

instance : Encode (List TransferPoint) := ⟨fun ps => encode (Unordered.mk ps)⟩

instance : Encode Transfers where
  encode t := .obj [("entry", encode t.entries), ("exit", encode t.exits), ("upd", encode t.updates)]

instance : Encode DeviceContext.Need :=
  ⟨fun n => .arr [.str n.region, .int n.source, .int n.target, .str n.place]⟩

instance : Encode (List DeviceContext.Need) := ⟨fun ns => encode (Unordered.mk ns)⟩

def DeviceContext.describeSeen (c : DeviceContext) : Json :=
  encode (c.seen.map fun _ t => t.map fun _ ws => Unordered.mk ws)

namespace DeviceContext

def stepOf (g : Graph) (s : DeviceScope) (writes : WritesByDevice) (a : Json) : Tracking Json := do
  let device : Int := decode (a.item 1)
  match (decode (a.item 0) : String) with
  | "update_writes" => return encode (Unordered.mk (← noteWrites device (decode (a.item 2)) (decode (a.item 3))))
  | "find" => return encode (Unordered.mk (← query fun c => c.requiredUpdates g.isPredecessor device))
  | "sync" =>
    synchronise device
    return .null
  | "request" => return encode (Unordered.mk (← requestUpdates g.isPredecessor device))
  | "to" =>
    let next := decode (a.item 1)
    return encode (Unordered.mk (← enter g.isPredecessor (s.deviceOf next) writes next))
  | _ => throw .unknownKey

def answers (step : Json → Tracking Json) : DeviceContext → List Json → List (Result Json × List (String × Json))
  | _, [] => []
  | c, a :: rest =>
    let (r, c) := (step a).run.run c
    (r, [("cu", .str c.node), ("dev", .int c.device), ("seen", c.describeSeen)]) :: answers step c rest

end DeviceContext

end ParallelPatterns
