import ParallelPatterns.Graph.Dependence
import ParallelPatterns.Table

/-!
# Nodes of the program graph

A node is a computational unit, a loop, a function or a placeholder for a function whose body is not
known. All nodes share their position, name and what the analyses found out about them; the rest
depends on the kind of node.
-/

namespace ParallelPatterns

/-- A variable as it stands at a node. Variables are told apart by their names. -/
structure Variable where
  type : Option String
  name : Option String
  defLine : Option String
  mode : Option String := some ""
  size : Int
  place : Option Nat := none
  deriving DecidableEq, Repr, Inhabited

namespace Variable

def knownSize (size : Int) : Int := if size == 0 then 8 else size

def named (name : String) : Variable :=
  { type := some "", name := some name, defLine := some "", size := 8 }

end Variable

structure CallSite where
  callee : Option NodeId
  line : String
  deriving DecidableEq, Repr, Inhabited

/-- The role of a node in a division of work among tasks. -/
inductive WorkRole where
  | none
  | root
  | fork
  | worker
  | barrier
  | barrierWorker
  deriving DecidableEq, Repr

namespace WorkRole

def name : WorkRole → String
  | none => "NONE"
  | root => "ROOT"
  | fork => "FORK"
  | worker => "WORKER"
  | barrier => "BARRIER"
  | barrierWorker => "BARRIER_WORKER"

end WorkRole

/-- A measured number: whole, or real when it was computed as a quotient. -/
inductive Measure where
  | whole (n : Int)
  | real (x : Float)
  deriving Repr

namespace Measure

instance : Inhabited Measure := ⟨.whole 0⟩

def toFloat : Measure → Float
  | .whole n => Float.ofInt n
  | .real x => x

end Measure

structure LoopCount where
  line : LineId
  total : Int
  entries : Int
  average : Int
  maximum : Int
  deriving DecidableEq, Repr, Inhabited

structure UnitBody where
  instructions : Int := -1
  block : Option String := some ""
  column : Option Int := none
  returns : Int := -1
  locals : List Variable := []
  globals : List Variable := []
  fileAccess : Bool := false
  deriving Repr, Inhabited

structure LoopBody where
  iterations : Int := -1
  arrayReduction : Bool := false
  count : Option LoopCount := none
  deriving Repr, Inhabited

abbrev DeviceAccesses := Table Int (Table Region (List (Option Int)))

structure FunctionBody where
  args : List Variable := []
  /-- The nodes below the function, once they have been collected. -/
  children : Option (List NodeId) := none
  reach : Table NodeId (List NodeId) := ∅
  postDominators : Option (Table NodeId NodeId) := none
  accesses : Option DeviceAccesses := none
  deriving Inhabited

inductive NodeKind where
  | unit
  | loop
  | function
  | dummy
  deriving DecidableEq, Repr

/-- What depends on the kind of a node. -/
inductive NodeBody where
  | unit (body : UnitBody)
  | loop (body : LoopBody)
  | function (body : FunctionBody)
  | dummy (args : List Variable)

instance : Inhabited NodeBody := ⟨.dummy []⟩

structure Node where
  id : NodeId
  file : Int
  number : Int
  startLine : Int
  endLine : Int
  name : Option String
  parentFunction : Option NodeId := none
  workload : Option Int := none
  calls : List CallSite := []
  recursiveCalls : List (Option String) := []
  reduction : Bool := false
  doAll : Bool := false
  geometric : Bool := false
  pipeline : Measure := .whole (-1)
  containsTask : Bool := false
  containsTaskwait : Bool := false
  omittable : Bool := false
  role : WorkRole := .fork
  body : NodeBody
  deriving Inhabited

namespace Node

variable (n : Node)

def kind : NodeKind :=
  match n.body with
  | .unit _ => .unit
  | .loop _ => .loop
  | .function _ => .function
  | .dummy _ => .dummy

def isUnit : Bool := n.kind == .unit

def isLoop : Bool := n.kind == .loop

def isFunction : Bool := n.kind == .function

/-- Do two nodes carry the same numbers? Nodes with differently written identifiers may. -/
def alike (a b : Node) : Bool := a.file == b.file && a.number == b.number

instance : BEq Node := ⟨alike⟩

def among (ns : List Node) : Bool := ns.any fun m => m.alike n

def start : LineId := position n.file n.startLine

def finish : LineId := position n.file n.endLine

def containsLine (line : String) : Result Bool :=
  lineWithin n.file n.startLine n.endLine line

def unit? : Option UnitBody :=
  match n.body with
  | .unit b => some b
  | _ => none

def loop? : Option LoopBody :=
  match n.body with
  | .loop b => some b
  | _ => none

def function? : Option FunctionBody :=
  match n.body with
  | .function b => some b
  | _ => none

def locals : List Variable := (n.unit?.map (·.locals)).getD []

def globals : List Variable := (n.unit?.map (·.globals)).getD []

def ownVariables : List Variable := n.locals ++ n.globals

def args? : Option (List Variable) :=
  match n.body with
  | .function b => some b.args
  | .dummy args => some args
  | _ => none

def iterations? : Option Int := n.loop?.map (·.iterations)

def modifyLoop (f : LoopBody → LoopBody) : Node :=
  match n.body with
  | .loop b => { n with body := .loop (f b) }
  | _ => n

def modifyFunction (f : FunctionBody → FunctionBody) : Node :=
  match n.body with
  | .function b => { n with body := .function (f b) }
  | _ => n

theorem alike_refl : n.alike n = true := by simp [alike]

theorem alike_comm (a b : Node) : a.alike b = b.alike a := by
  simp [alike, Bool.beq_comm (a := a.file), Bool.beq_comm (a := a.number)]

end Node

end ParallelPatterns
