import ParallelPatterns.Device.Writes

/-!
# Accesses of called functions

A function accesses what the nodes below it access. The accesses of a function count as accesses of
the units that call it; since a called function may call others, they are handed on until nothing
changes. A function remembers its accesses from one analysis to the next.
-/

namespace ParallelPatterns

abbrev RegionAccesses := Table Region (List (Option Int))

namespace RegionAccesses

def add (t : RegionAccesses) (accesses : List (Region × List (Option Int))) : RegionAccesses :=
  accesses.foldl (fun t e => t.update e.1 [] fun old => addAll old e.2) t

end RegionAccesses

namespace DeviceAccesses

def addNode (writes : WritesByDevice) (t : DeviceAccesses) (id : NodeId) : DeviceAccesses :=
  writes.entries.foldl (fun t e =>
    t.update e.1 ∅ fun regions => RegionAccesses.add regions ((e.2.get? id).getD ∅).entries) t

def onHost (t : DeviceAccesses) : Result DeviceAccesses :=
  let others := (t.entries.filter fun e => e.1 != 0).flatMap fun e => e.2.entries
  match t.get? 0 with
  | none => if others.isEmpty then .ok ∅ else .error .unknownKey
  | some host => .ok ⟨[(0, RegionAccesses.add host others)]⟩

end DeviceAccesses

def Graph.remember (g : Graph) (f : NodeId) (accesses : DeviceAccesses) : Graph :=
  g.modifyNode f fun n => n.modifyFunction fun b => { b with accesses := some accesses }

def functionAccesses (writes : WritesByDevice) (f : NodeId) : Analysis DeviceAccesses := do
  let n ← Analysis.query (·.node f)
  match n.function? with
  | none => throw .missingProperty
  | some b =>
    match b.children with
    | none => throw .wrongSort
    | some children =>
      let accesses := children.foldl (DeviceAccesses.addNode writes) (b.accesses.getD ∅)
      modify (·.remember f accesses)
      return accesses

namespace WritesByDevice

def addAccesses (device : Int) (regions : RegionAccesses) (w : WritesByDevice) (unit : NodeId) : WritesByDevice :=
  w.update device ∅ fun units => units.update unit ∅ fun old => RegionAccesses.add old regions.entries

def addToCallers (w : WritesByDevice) (accesses : DeviceAccesses) (callers : List NodeId) :
    WritesByDevice :=
  accesses.entries.foldl (fun w e => callers.foldl (addAccesses e.1 e.2) (w.update e.1 ∅ id)) w

def count (w : WritesByDevice) : Nat :=
  total (w.values.flatMap fun units => units.values.flatMap fun regions => regions.values.map (·.length))

end WritesByDevice

def handToCallers (toHost : Bool) (w : WritesByDevice) (f : NodeId) : Analysis WritesByDevice := do
  let accesses ← functionAccesses w f
  let accesses ← if toHost then do
      let host ← Analysis.lift accesses.onHost
      modify (·.remember f host)
      pure host
    else pure accesses
  let g ← Analysis.graph
  return w.addToCallers accesses ((g.inEdgesOf f [.call]).map (·.source))

def callAccessRound (toHost : Bool) (w : WritesByDevice) : Analysis WritesByDevice := do
  let functions := (← Analysis.graph).functions
  functions.foldlM (fun w f => handToCallers toHost w f.id) w

/-- Repeats rounds until the number of recorded accesses stays the same. Nothing bounds the number
of rounds: the result is `none` if there is no last one. -/
def Graph.callAccessesGo (g : Graph) (toHost : Bool) (w : WritesByDevice) :
    Option (Result WritesByDevice × Graph) :=
  match (callAccessRound toHost w).runOn g with
  | (.error e, g') => some (.error e, g')
  | (.ok next, g') => if next.count == w.count then some (.ok next, g') else g' |>.callAccessesGo toHost next
partial_fixpoint

/-- Adds the accesses of called functions to the calling units; on request they all count as
accesses of the host. -/
def addCallAccesses (toHost : Bool) (w : WritesByDevice) : Analysis WritesByDevice := do
  match (← Analysis.graph).callAccessesGo toHost w with
  | some (r, g) =>
    set g
    Analysis.lift r
  | none => throw .endless

end ParallelPatterns
