import ParallelPatterns.Dataflow.Variables

/-!
# Which transfers a variable needs

A variable that a loop reads from outside must be copied to the device, and one whose value is read
outside must be copied back. The data dependences of the loop's units, in both directions, decide.
-/

namespace ParallelPatterns

inductive MapType where
  | toDevice
  | fromDevice
  | both
  | allocated
  | none
  deriving DecidableEq, Repr, Inhabited

def MapType.name : MapType → String
  | toDevice => "MT_TO"
  | fromDevice => "MT_FROM"
  | both => "MT_TOFROM"
  | allocated => "MT_ALLOC"
  | none => "MT_NONE"

/-- Takes an element out of a set; an empty set gives an empty text. -/
def takeOne (s : List String) : String × List String := (s.headD "", s.tail)

/-- Looks an element up in a set, which loses another one if it is not there. -/
def findOrTakeOne (x : String) (s : List String) : String × List String :=
  if s.contains x then (x, s) else takeOne s

/-- The data dependences of units by kind, out of the units and into them. -/
structure UnitDependences where
  raw : List Edge
  war : List Edge
  waw : List Edge
  reverseRaw : List Edge
  reverseWar : List Edge
  reverseWaw : List Edge

namespace Graph

def unitDependences (g : Graph) (units : List Node) : UnitDependences :=
  let out (k : DependenceKind) : List Edge := units.flatMap fun u => g.outDataOf u.id k
  let into (k : DependenceKind) : List Edge := units.flatMap fun u => g.inDataOf u.id k
  { raw := out .readAfterWrite, war := out .writeAfterRead, waw := out .writeAfterWrite
    reverseRaw := into .readAfterWrite, reverseWar := into .writeAfterRead
    reverseWaw := into .writeAfterWrite }

def anyOn (name : String) (ids : List NodeId) (es : List Edge) : Bool :=
  es.any fun e => e.dep.var == some name && !ids.contains name

/-- The map type of a variable in a loop with the given units: arguments and global variables are
copied to the device when nothing else is known. -/
def mapType (g : Graph) (loop : Node) (units : List Node) (name : String) (scalar : Bool)
    (raw reverseRaw : List Edge) : Result MapType := do
  let ids := units.map (·.id)
  match anyOn name ids raw, anyOn name ids reverseRaw with
  | true, false => return .toDevice
  | false, true => return .fromDevice
  | true, true => return .both
  | false, false =>
    if (← g.isArgument (some name) loop) || isGlobal (some name) units then return .toDevice
    else return if scalar then .none else .allocated

end Graph

end ParallelPatterns
