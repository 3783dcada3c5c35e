import ParallelPatterns.Graph.Line

/-!
# Dependences between nodes

An edge of the program graph carries a dependence: a structural one (child, successor, call) or a
data dependence with its kind, variable, memory region and the two source lines. A data dependence
may be known to stay inside one iteration of the loop at a nesting level.
-/

namespace ParallelPatterns

/-- What an edge of the program graph stands for. -/
inductive EdgeKind where
  | child
  | successor
  | data
  | call
  | produceConsume
  deriving DecidableEq, Repr, Inhabited

inductive DependenceKind where
  | readAfterWrite
  | writeAfterRead
  | writeAfterWrite
  | initial
  deriving DecidableEq, Repr

namespace EdgeKind

def name : EdgeKind → String
  | child => "CHILD"
  | successor => "SUCCESSOR"
  | data => "DATA"
  | call => "CALLSNODE"
  | produceConsume => "PRODUCE_CONSUME"

def all : List EdgeKind := [child, successor, data, call, produceConsume]

def ofName? (s : String) : Option EdgeKind := all.find? fun k => k.name == s

end EdgeKind

namespace DependenceKind

def name : DependenceKind → String
  | readAfterWrite => "RAW"
  | writeAfterRead => "WAR"
  | writeAfterWrite => "WAW"
  | initial => "INIT"

def all : List DependenceKind := [readAfterWrite, writeAfterRead, writeAfterWrite, initial]

def ofName? (s : String) : Option DependenceKind := all.find? fun k => k.name == s

end DependenceKind

structure Dependence where
  edge : EdgeKind
  kind : Option DependenceKind := none
  var : Option String := none
  region : Option Region := none
  sourceLine : Option LineId := none
  sinkLine : Option LineId := none
  intraIteration : Bool := false
  level : Int := -1
  deriving DecidableEq, Repr, Inhabited

namespace Dependence

def isKind (d : Dependence) (k : DependenceKind) : Bool := d.kind == some k

def text (d : Dependence) : String :=
  match d.var with
  | some v => v
  | none => "EdgeType." ++ d.edge.name

def sameAccess (a b : Dependence) : Bool :=
  a.kind == b.kind && a.edge == b.edge && a.region == b.region && a.sinkLine == b.sinkLine &&
    a.sourceLine == b.sourceLine && a.var == b.var

/-- The kind, and the iteration level if there is one, that a type text such as `RAW` or `RAW_II_1`
denotes. -/
def parseKind (type : String) : Result (DependenceKind × Option Int) :=
  if Text.has "_II_" type then do
    let level ← number (Text.afterLast "_" type)
    match DependenceKind.ofName? (Text.cut "_" type).1 with
    | some k => return (k, some level)
    | none => .error .unknownKey
  else
    match DependenceKind.ofName? type with
    | some k => .ok (k, none)
    | none => .error .unknownKey

def ofRecord (sink source type : String) (var region : Option String) : Result Dependence := do
  let (kind, level) ← parseKind type
  return {
    edge := .data, kind := some kind, var, region
    sourceLine := some source, sinkLine := some sink
    intraIteration := level.isSome, level := level.getD (-1) }

end Dependence

/-- An edge up to its key: the nodes that it joins, and what it carries. -/
structure Arc where
  source : NodeId
  target : NodeId
  dep : Dependence
  deriving DecidableEq

/-- An edge between two nodes. Several edges may join the same nodes; the key tells them apart. -/
structure Edge where
  source : NodeId
  target : NodeId
  /-- Tells the edges between the same nodes apart. -/
  key : Nat
  dep : Dependence
  deriving DecidableEq, Repr, Inhabited

namespace Edge

def same (a b : Edge) : Bool := a.source == b.source && a.target == b.target && a.key == b.key

end Edge

end ParallelPatterns
