import ParallelPatterns.Dataflow.Access
import ParallelPatterns.Graph.Traversal

/-!
# Variables and the memory behind them

The variables of a part of the program with their memory regions; variables from outside of a loop;
and the roles that a variable can play in a loop: index, read-only, reduction. Variables of the same
name are the same variable, of which the first one met is kept.
-/

namespace ParallelPatterns

abbrev VariableRegions := List (Variable × List Region)

namespace VariableRegions

variable (t : VariableRegions)

def has (v : Variable) : Bool := t.any fun e => e.1.name == v.name

def declare (v : Variable) : VariableRegions :=
  if t.has v then t else t ++ [(v, [])]

def note (v : Variable) (r : Region) : VariableRegions :=
  t.map fun e => if e.1.name == v.name then (e.1, addNew e.2 r) else e

end VariableRegions

/-- The names of the variables of some units. -/
def variableNames (ns : List Node) : List String :=
  distinct (ns.flatMap fun n => n.ownVariables.map fun v => v.name.getD "")

namespace Graph

variable (g : Graph)

def noteRegions (id : NodeId) (t : VariableRegions) : VariableRegions :=
  let deps := (g.outData id ++ g.inData id).map (·.dep)
  t.map fun (v, regions) =>
    (v, addAll regions (deps.filterMap fun d => if d.var == v.name then d.region else none))

def variablesOf (nodes : List Node) : VariableRegions :=
  nodes.foldl (fun t n =>
    match n.unit? with
    | some b => g.noteRegions n.id ((b.locals ++ b.globals).foldl VariableRegions.declare t)
    | none => t) []

def regionsOf (nodes : List Node) (name : String) : List Region :=
  distinct (nodes.flatMap fun n =>
    (g.outData n.id).filterMap fun e => if e.dep.var == some name then e.dep.region else none)

def reductionList : Result (List ReductionRecord) :=
  g.reductions.getDM (.error .wrongSort)

def isReductionVariable (line : LineId) (name : Option String) : Result Bool := do
  return (← g.reductionList).any fun r => r.loopLine == line && some r.name == name

/-- What combines the values of a reduction variable; empty if it is none. -/
def reductionSign (line : LineId) (name : Option String) : Result String := do
  return (((← g.reductionList).find? fun r => r.loopLine == line && some r.name == name).map
    (·.operation)).getD ""

/-- The names of the loop indices among the variables of units: a unit reads on the line of a loop
what was written on that line. -/
def indexNames (lines : List LineId) (units : List Node) : List (Option String) :=
  units.flatMap fun u => (g.outDataOf u.id .readAfterWrite).filterMap fun e =>
    if e.dep.sinkLine == e.dep.sourceLine && e.dep.sourceLine.any lines.contains &&
      (g.node? e.target).any (·.among units)
    then some e.dep.var else none

variable (name : Option String)

def isLoopIndex (lines : List LineId) (units : List Node) : Bool :=
  (g.indexNames lines units).contains name

def isLoopIndexBelow (root : Node) (name : Option String) : Bool :=
  g.isLoopIndex name ((g.subtreeLoops root).map (·.start)) (g.subtreeUnits root)

def outsideLines (lines : List LineId) (line : Option LineId) : Bool :=
  !line.any lines.contains

def writtenRegions (units : List Node) (lines : List LineId) : List (Option Region) :=
  units.flatMap fun u =>
    ((g.outData u.id).filter fun e =>
      (e.dep.isKind .writeAfterRead || e.dep.isKind .writeAfterWrite) &&
        outsideLines lines e.dep.sinkLine).map (·.dep.region) ++
    ((g.inDataOf u.id .readAfterWrite).filter fun e => outsideLines lines e.dep.sourceLine).map
      (·.dep.region)

def isReadOnlyInBody (d : Dependence) (units : List Node) (lines : List LineId) : Bool :=
  !(g.writtenRegions units lines).contains d.region

/-- The units of a loop, the lines on which it and its inner loops begin, the regions written in its
body, the names of its indices, and the data dependences between its units. -/
structure LoopView where
  loop : Node
  units : List Node
  lines : List LineId
  written : List (Option Region)
  indices : List (Option String)

def loopView (loop : Node) : LoopView :=
  let units := g.subtreeUnits loop
  let lines := (g.subtreeLoops loop).map (·.start)
  { loop, units, lines
    written := g.writtenRegions units lines
    indices := g.indexNames lines units }

def innerDependences (v : LoopView) : List Edge :=
  let ids := v.units.map (·.id)
  v.units.flatMap fun u => (g.outData u.id).filter fun e => ids.contains e.target

/-- Can a dependence be ignored, because its memory is only read in the loop's body or its variable
is a loop index? -/
def LoopView.isHarmless (v : LoopView) (d : Dependence) : Bool :=
  !v.written.contains d.region || v.indices.contains d.var

/-- Does the source, or a unit below it, read what the target, or a unit below it, wrote? Loop
indices and memory that is only read in the loop do not count. -/
def dependsIn (v : LoopView) (source target : Node) : Bool :=
  if source.alike target then false
  else
    let targets := (g.subtreeUnits target).map (·.id)
    (g.subtreeUnits source).any fun s => (g.outDataOf s.id .readAfterWrite).any fun e =>
      targets.contains e.target && !v.isHarmless e.dep

def dependsBeyondIndices (source target root : Node) : Bool :=
  g.dependsIn (g.loopView root) source target

def depends (source target : Node) : Bool :=
  if source.alike target then false
  else
    let below := g.subtree target
    (g.subtreeUnits source).any fun s =>
      (g.targets (g.outDataOf s.id .readAfterWrite)).any fun t => t.among below

def isPassedByReference (d : Dependence) (args : List Variable) : Bool :=
  args.any fun a => a.name == d.var

/-- Could two accesses be to different memory under one name? Both functions must be known; the
answer is always yes. -/
def mayAlias (sink source : Node) : Result Bool := do
  let _ ← g.parentFunction sink
  let _ ← g.parentFunction source
  return true

def isGlobal (nodes : List Node) : Bool :=
  nodes.any fun n => n.globals.any fun v => v.name == name

/-- Is the variable a copy of an argument of a function that holds the node directly, or of the node
itself? Copies have a point in their names. -/
def isArgument (n : Node) : Result Bool := do
  match name with
  | none => return false
  | some s =>
    if !Text.has "." s then return false
    let holders := g.sources (g.inEdgesOf n.id [.child]) ++ (if n.isFunction then [n] else [])
    let args := holders.flatMap fun f => ((f.function?).map (·.args)).getD []
    args.foldlM (fun found a => do
      if found then return true
      return Text.begins (← a.name.getDM (.error .wrongSort)) s) false

def hasValueAt (n : Node) (v : Variable) (written : Bool) : Result Bool := do
  if written then return true
  if ← g.isArgument v.name n then Access.isScalar v else return false

def isScalarNamed (vars : List Variable) (name : String) : Result Bool :=
  match vars with
  | [] => .error .noVariables
  | v :: _ => if v.name == some name then Access.isScalar v else .ok false

def definitionOf (v : Variable) : Result String :=
  v.defLine.getDM (.error .wrongSort)

def definedBetween (line first last : String) : Bool := first ≤ line && line ≤ last

/-- May a variable count as defined outside of a loop? Temporary variables do not, and global ones
only if they are asked for or are reduction variables. -/
def mayCount (loop : Node) (withGlobals : Bool) (v : Variable) : Result Bool := do
  let line ← definitionOf v
  if line == "LineNotFound" || Text.has "0:" line then return false
  if !withGlobals && line == "GlobalVar" then g.isReductionVariable loop.start v.name
  else return true

/-- The variables of a loop that are defined outside of it, with their regions. -/
def outsideVariables (loop : Node) (withGlobals : Bool) : Result VariableRegions := do
  let units := g.subtreeUnits loop
  let vars ← (g.variablesOf units).filterM fun e => g.mayCount loop withGlobals e.1
  return vars.filter fun (v, _) =>
    let line := v.defLine.getD ""
    !definedBetween line loop.start loop.finish &&
      units.all fun u => !definedBetween line u.start u.finish

def initialised (units : List Node) : VariableRegions :=
  units.foldl (fun t u =>
    (g.outDataOf u.id .initial).foldl (fun t e =>
      match e.dep.region with
      | none => t
      | some r =>
        (u.globals ++ u.locals).foldl (fun t v =>
          if v.name == e.dep.var then (VariableRegions.declare t v).note v r else t) t) t) []

/-- Is the name written by a later and read by an earlier access inside of a loop on one line? -/
def writtenFirstNames (names : List String) (root : Node) : List String :=
  let units := g.subtreeUnits root
  let ids := units.map (·.id)
  let inside (e : Edge) : Bool := ids.contains e.source && ids.contains e.target
  let raw := (units.flatMap fun u => g.outDataOf u.id .readAfterWrite).filter inside
  let overwriting := (units.flatMap fun u =>
    g.outDataOf u.id .writeAfterRead ++ g.outDataOf u.id .writeAfterWrite).filter inside
  (distinct names).filter fun v =>
    raw.any fun i => i.dep.var == some v &&
      overwriting.any fun e => e.dep.var == some v && e.dep.sinkLine == i.dep.sourceLine

def isOverwrittenInLoop (d : Dependence) (root : Node) : Bool :=
  (g.subtreeUnits root).any fun u => (g.outData u.id).any fun e =>
    (e.dep.isKind .writeAfterRead || e.dep.isKind .writeAfterWrite) && d.var == e.dep.var &&
      d.sourceLine == e.dep.sinkLine

def parallelLoops (n : Node) : List Node × List Node :=
  let nodes := g.subtreeLoops n ++
    (g.childrenOrCalledOf n.id [.function]).flatMap fun f => g.childrenOrCalledOf f.id [.unit]
  (nodes.filter (·.doAll), nodes.filter fun l => !l.doAll && l.reduction)

end Graph

end ParallelPatterns
