import ParallelPatterns.Graph.Node

/-!
# How memory regions are accessed

Tests on lists of data dependences: is a region written or read inside a part of the program, only
read, or written before it is read? The parts are lists of nodes; a dependence points from the later
access (its source node) to the earlier one (its target node).
-/

namespace ParallelPatterns.Access

variable (regions : List Region)

def concerns (e : Edge) : Bool := e.dep.region.any regions.contains

def holds (tree : List Node) (id : NodeId) : Bool := tree.any fun n => n.id == id

def writtenIn (raw waw : List Edge) (tree : List Node) : Bool :=
  (raw ++ waw).any fun e => concerns regions e && holds tree e.target

def readOnly (war waw reverseRaw : List Edge) : Bool :=
  (war ++ waw ++ reverseRaw).all fun e => !concerns regions e

/-- Is every read that a write inside the tree overwrites preceded by a write? -/
def firstWritten (raw war : List Edge) (tree : List Node) : Bool :=
  war.all fun e =>
    !(concerns regions e && holds tree e.target) ||
      raw.any fun r => concerns regions r && e.dep.sourceLine == r.dep.sinkLine

def readInSubtree (reverseRaw : List Edge) (tree : List Node) : Bool :=
  reverseRaw.any fun e => concerns regions e && holds tree e.source

def readBeyond (reverseRaw : List Edge) (tree : List Node) : Bool :=
  reverseRaw.any fun e => concerns regions e && holds tree e.target && !holds tree e.source

def readIn (raw war reverseRaw reverseWar : List Edge) (tree : List Node) : Bool :=
  raw.any (concerns regions) ||
    war.any (fun e => concerns regions e && holds tree e.target) ||
    reverseRaw.any (fun e => concerns regions e && holds tree e.target) ||
    reverseWar.any (concerns regions)

/-- Does the dependence name its variable? -/
def isNamed (e : Edge) : Bool := e.dep.var.isSome

/-- Is a region read that was written inside of the tree? -/
def readsWithin (tree : List Node) (e : Edge) : Bool := concerns regions e && holds tree e.target

/-- Does a write overwrite, on the line on which the value of a dependence was written, what had
been read before? -/
def overwrites (e w : Edge) : Bool := concerns regions w && e.dep.sourceLine == w.dep.sinkLine

/-- Is the value of a dependence overwritten? The test ends at the first such write. -/
def overwritten (e : Edge) : List Edge → Result Bool
  | [] => .ok false
  | w :: ws =>
    if isNamed w then if overwrites regions e w then .ok true else overwritten e ws else .error .requirement

/-- A turn of looking through the dependences: one that reads within the tree replaces what was
found before. -/
def readTurn (war : List Edge) (tree : List Node) (found : Bool) (e : Edge) : Result Bool :=
  if isNamed e then if readsWithin regions tree e then (!·) <$> overwritten regions e war else .ok found
  else .error .requirement

/-- Is a region written before it is read? The last dependence on a write inside the tree decides:
it counts unless a later write overwrites the value on the same line. A region that is not read at
all counts as written first. -/
def writtenFirst (name : Option String) (regions : List Region)
    (raw war reverseRaw reverseWar : List Edge) (tree : List Node) : Result Bool := do
  if name.isNone then return false
  let found ← raw.foldlM (readTurn regions war tree) false
  return found || !readIn regions raw war reverseRaw reverseWar tree

def dependsInOut (incoming outgoing : List Edge) : Bool :=
  incoming.any fun i => outgoing.any fun o => concerns regions i && i.dep.region == o.dep.region

def dependsIn (incoming raw : List Edge) : Bool :=
  incoming.any fun i => concerns regions i && raw.any i.same

def dependsOut (reverseRaw outgoing : List Edge) : Bool :=
  outgoing.any fun o => concerns regions o && reverseRaw.any o.same

def isScalarType (type : String) : Bool := !(Text.ends "**" type || Text.begins "ARRAY" type)

def isScalar (v : Variable) : Result Bool :=
  match v.type with
  | some t => .ok (isScalarType t)
  | none => .error .missingProperty

end ParallelPatterns.Access
