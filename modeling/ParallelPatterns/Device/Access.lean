import ParallelPatterns.Graph.Traversal

/-!
# Which unit accesses which memory

A scope names the regions that run on a device: the nodes that run there, and the nodes at which the
regions begin. The units of the functions around the regions are sorted by the memory that they
write and read, and by the names that they use for it.
-/

namespace ParallelPatterns

structure DeviceScope where
  device : List NodeId
  roots : List NodeId
  deriving Repr, Inhabited

abbrev UnitRegions := Table NodeId (Table String (List Region))

abbrev RegionNames := Table Region (Table NodeId (List String))

namespace Graph

variable (g : Graph)

variable (roots : List NodeId)

def scopeFunctions : Result (List Node) := do
  let fs ← roots.mapM fun id => do g.parentFunction (← g.node id)
  return fs.foldl (fun found f => if found.any fun h => h.id == f.id then found else found ++ [f]) []

def scopeUnits : Result (List NodeId) := do
  return distinct ((← g.scopeFunctions roots).flatMap fun f => (g.subtreeUnits f).map (·.id))

def knownRegion (e : Edge) : Option Region :=
  match e.dep.region with
  | some r => if r == "" then none else some r
  | none => none

def writtenBy (id : NodeId) : List Region :=
  distinct (((g.inDataOf id .readAfterWrite ++ g.inDataOf id .writeAfterWrite) ++
    (g.outDataOf id .writeAfterRead ++ g.outDataOf id .writeAfterWrite)).filterMap knownRegion)

def readBy (id : NodeId) : List Region :=
  distinct ((g.inDataOf id .writeAfterRead ++ g.outDataOf id .readAfterWrite).filterMap knownRegion)

def accessedRegions : Result (Table NodeId (List Region) × Table NodeId (List Region)) := do
  let ids ← g.scopeUnits roots
  return (⟨ids.map fun id => (id, g.writtenBy id)⟩, ⟨ids.map fun id => (id, g.readBy id)⟩)

def namedRegions (id : NodeId) : Table String (List Region) :=
  (g.outData id).foldl (fun t e =>
    match e.dep.var, knownRegion e with
    | some v, some r => t.update v [] fun rs => addNew rs r
    | _, _ => t) ∅

def unitRegions : Result UnitRegions := do
  return ⟨(← g.scopeUnits roots).map fun id => (id, g.namedRegions id)⟩

end Graph

def UnitRegions.toNames (t : UnitRegions) : RegionNames :=
  t.entries.foldl (fun out (unit, names) =>
    names.entries.foldl (fun out (name, regions) =>
      regions.foldl (fun out r =>
        out.update r ∅ fun byNode => byNode.update unit [] fun ns => addNew ns name) out) out) ∅

def RegionNames.toFunctions (g : Graph) (t : RegionNames) : Result RegionNames :=
  t.entries.foldlM (fun out (r, units) =>
    units.entries.foldlM (fun (out : RegionNames) (unit, names) => do
      let f ← g.parentFunction (← g.node unit)
      return out.update r ∅ fun byNode => byNode.update f.id [] fun ns => addAll ns names) out) ∅

end ParallelPatterns
