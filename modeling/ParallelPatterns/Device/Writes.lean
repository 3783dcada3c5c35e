import ParallelPatterns.Device.Liveness

/-!
# Writes to live regions

Every write of a unit to a live region gets an identifier of its own; a unit in which a region is
live without being written has the empty mark. Writes may be carried on to where they can be seen,
and are grouped by unit in the end.
-/

namespace ParallelPatterns

abbrev RegionWrites := Table Region (List (NodeId × Option Int))

abbrev WritesByUnit := Table NodeId (Table Region (List (Option Int)))

abbrev WritesByDevice := Table Int WritesByUnit

def WritesByDevice.ofNode (writes : WritesByDevice) (device : Int) (node : NodeId) :
    Table Region (List (Option Int)) :=
  ((writes.get? device).bind (·.get? node)).getD ∅

namespace RegionWrites

def isWritten (written : Table NodeId (List Region)) (r : Region) (id : NodeId) : Bool :=
  (written.get? id).any (·.contains r)

/-- Marks a live node: a write gets the next free identifier. -/
def mark (written : Table NodeId (List Region)) (r : Region) (s : RegionWrites × Int)
    (id : NodeId) : RegionWrites × Int :=
  if isWritten written r id then (s.1.update r [] (addNew · (id, some s.2)), s.2 + 1)
  else (s.1.update r [] (addNew · (id, none)), s.2)

/-- Numbers the writes of live nodes, from the next free identifier on; gives the identifier that is
free afterwards, too. -/
def ofLiveness (next : Int) (live : Liveness) (written : Table NodeId (List Region)) : RegionWrites × Int :=
  live.entries.foldl (fun s (r, ids) => ids.foldl (mark written r) (s.1.insertNew r [], s.2)) (∅, next)

/-- Drops the empty marks of nodes that write. -/
def dropOverwritten (t : RegionWrites) : RegionWrites :=
  t.map fun _ accesses => accesses.filter fun a => a.2.isSome || !accesses.any fun b => b.1 == a.1 && b.2.isSome

def byUnit (t : RegionWrites) : WritesByUnit :=
  t.entries.foldl (fun out (r, accesses) =>
    accesses.foldl (fun out (id, w) =>
      out.update id ∅ fun regions => regions.update r [] fun ws => addNew ws w) out) ∅

end RegionWrites

namespace Graph

def closeAccessesGo (step : List (NodeId × Option Int) → NodeId × Option Int →
    Result (List (NodeId × Option Int))) :
    Nat → List (NodeId × Option Int) → List (NodeId × Option Int) → Result (List (NodeId × Option Int))
  | 0, _, all => .ok all
  | _ + 1, [], all => .ok all
  | fuel + 1, a :: rest, all => do
    let new := distinct ((← step all a).filter fun x => !all.contains x)
    closeAccessesGo step fuel (rest ++ new) (all ++ new)

variable (g : Graph)

/-- Carries writes to the nodes that hold the writing ones, below the given functions. -/
def carryToParents (functions : List NodeId) (_ : List (NodeId × Option Int))
    (a : NodeId × Option Int) : Result (List (NodeId × Option Int)) :=
  if a.2.isNone then .ok []
  else .ok (((g.parentIds a.1).filter fun p => !functions.contains p).map fun p => (p, a.2))

def carryToSuccessors (all : List (NodeId × Option Int)) (a : NodeId × Option Int) :
    Result (List (NodeId × Option Int)) :=
  if a.2.isNone then .ok []
  else
    .ok (((g.outEdgesOf a.1 [.successor]).map (·.target)).foldl (fun new s =>
      if (all ++ new).contains (s, a.2) then new
      else
        let below := (g.outEdgesOf s [.child]).map (·.target) ++ (g.outEdgesOf s [.call]).map (·.target)
        new ++ (s :: below).map fun id => (id, a.2)) [])

def carryToCallers (_ : List (NodeId × Option Int)) (a : NodeId × Option Int) :
    Result (List (NodeId × Option Int)) := do
  let n ← g.node a.1
  match n.unit? with
  | none => return []
  | some b =>
    if b.returns ≤ 0 then return []
    let f ← g.parentFunction n
    return (g.inEdgesOf f.id [.call]).map fun e => (e.source, a.2)

/-- Carries the writes of a region on: up to the nodes around them, on to successors, and back to
the callers of functions that return. -/
def carryWrites (roots : List NodeId) (t : RegionWrites) : Result RegionWrites := do
  let functions := (← g.scopeFunctions roots).map (·.id)
  let close (step : List (NodeId × Option Int) → NodeId × Option Int →
      Result (List (NodeId × Option Int))) (t : RegionWrites) : Result RegionWrites := do
    let es ← t.entries.mapM fun (r, accesses) => do
      let start := distinct accesses
      let bound := start.length + (g.size + 1) * ((distinct (start.map (·.2))).length + 1) + 1
      return (r, ← closeAccessesGo step bound start start)
    return ⟨es⟩
  let t ← close (g.carryToParents functions) t
  let t ← close g.carryToSuccessors t
  close g.carryToCallers t

end Graph

end ParallelPatterns
