import ParallelPatterns.Input.DependenceFile
import ParallelPatterns.Input.ReductionFile
import ParallelPatterns.Input.UnitFile

/-!
# From the files of a run to the program graph

`ProgramInput.load` reads the four files of a run; `ProgramInput.toGraph` makes the graph: first the
nodes, then successors, calls and children of each node, then the loop counts, and last one edge for
every recorded dependence between units whose variables it concerns.
-/

namespace ParallelPatterns

/-- What the files of a run say. -/
structure ProgramInput where
  units : UnitFile
  dependences : List DependenceRecord
  loops : Table LineId LoopCount
  reductions : Option (List ReductionRecord)
  deriving Inhabited

structure ProgramPaths where
  units : String := "data/Data.xml"
  dependences : String := "data/dp_run_dep.txt"
  reductions : String := "data/reduction.txt"
  mapping : String := "data/FileMapping.txt"
  deriving Inhabited

namespace ProgramInput

/-- Reads the recorded dependences together with the static ones, which lie beside the description
of the units. -/
def loadDependences (files : Files) (paths : ProgramPaths) : Result DependenceFile := do
  let recorded ← files.read paths.dependences
  let statics := Files.join (Files.directoryOf (Files.absolute paths.units)) "static_dependencies.txt"
  let additional ← if files.present statics then files.read statics else pure ""
  DependenceFile.parse (Text.feedLines recorded ++ Text.feedLines additional)

def loadBeside (units : UnitFile) (files : Files) (paths : ProgramPaths) : Result ProgramInput := do
  let dependences ← loadDependences files paths
  let mappingLines := Text.lines (← files.read paths.mapping)
  let reductions ←
    if files.present paths.reductions then
      some <$> ReductionFile.parse files mappingLines paths.mapping (← files.read paths.reductions)
    else pure none
  return {
    units, dependences := dependences.dependences, loops := dependences.loopTable, reductions }

def loadAfter (earlier : UnitFile) (description : String) (files : Files) (paths : ProgramPaths) :
    Result ProgramInput := do
  loadBeside (← UnitFile.parse earlier description) files paths

def load (files : Files) (paths : ProgramPaths) : Result ProgramInput := do
  loadAfter {} (← files.read paths.units) files paths

end ProgramInput

namespace NodeRecord

def sizeOf (m : Markup) : Result Int := number ((m.attribute? "sizeInByte").getD "0")

def variableOf (m : Markup) (mode : Option String) : Result Variable := do
  return {
    type := m.attribute? "type", name := m.text?, defLine := m.attribute? "defLine", mode
    size := Variable.knownSize (← sizeOf m) }

def variablesIn (m : Markup) (group tag : String) : Result (List Variable) := do
  let g ← m.child group
  (g.childrenOf tag).mapM fun v => variableOf v (v.attribute? "accessMode")

def numbersOf (id : Option String) : Result (Int × Int) := do parseId (← id.getDM (.error .missingProperty))

def numberOf (text : Option String) : Result Int := do number (← text.getDM (.error .wrongSort))

variable (r : NodeRecord)

def unitBody : Result (UnitBody × List CallSite × List (Option String)) := do
  let m := r.element
  let locals ← variablesIn m "localVariables" "local"
  let globals ← variablesIn m "globalVariables" "global"
  let block := ((m.child? "BasicBlockID").map (·.text?)).getD (some "")
  let returns ← match m.child? "returnInstructions" with
    | some c => numberOf (c.attribute? "count")
    | none => pure (-1)
  let callsElement ← m.child "callsNode"
  let calls := (r.called.getD []).filterMap fun c => c.line.map fun l => ⟨c.callee, l⟩
  let recursive := (callsElement.childrenOf "recursiveFunctionCall").map (·.text?)
  let fileAccess ← match m.child? "performsFileIO" with
    | some c => do pure ((← c.toInt) == 1)
    | none => pure false
  let column ← match m.child? "startColumn" with
    | some c => some <$> c.toInt
    | none => pure none
  let instructions ← (← m.child "instructionsCount").toInt
  return ({ instructions, block, column, returns, locals, globals, fileAccess }, calls, recursive)

def argumentsOf : Result (List Variable) :=
  match r.element.child? "funcArguments" with
  | some g => (g.childrenOf "arg").mapM fun v => variableOf v (some "")
  | none => .ok []

def toNode : Result Node := do
  let type ← numberOf r.type
  if !(0 ≤ type && type ≤ 3) then throw .notANumber
  let (file, n) ← numbersOf r.id
  let (body, calls, recursive) ←
    if type == 0 then do
      let (b, c, rec) ← unitBody r
      pure (NodeBody.unit b, c, rec)
    else if type == 1 then do pure (.function { args := ← argumentsOf r }, [], [])
    else if type == 2 then pure (.loop {}, [], [])
    else do pure (.dummy (← argumentsOf r), [], [])
  let (_, startLine) ← numbersOf (r.element.attribute? "startsAtLine")
  let (_, endLine) ← numbersOf (r.element.attribute? "endsAtLine")
  return {
    id := r.id.getD "", file, number := n, startLine, endLine, name := r.name, calls
    recursiveCalls := recursive, body }

end NodeRecord

/-- The dependence that an edge of a record carries. -/
def DependenceRecord.dependence (d : DependenceRecord) : Result Dependence :=
  Dependence.ofRecord d.sink d.source d.type (some d.var) (some d.region)

namespace Graph

def placeVariables (n : Nat) : List Variable → List Variable
  | [] => []
  | v :: vs => { v with place := some n } :: placeVariables (n + 1) vs

def placeNode (n : Nat) (node : Node) : Node × Nat :=
  match node.body with
  | .unit b =>
    let m := n + b.locals.length
    let body := { b with locals := placeVariables n b.locals, globals := placeVariables m b.globals }
    ({ node with body := .unit body }, m + b.globals.length)
  | .function b =>
    ({ node with body := .function { b with args := placeVariables n b.args } }, n + b.args.length)
  | .dummy args => ({ node with body := .dummy (placeVariables n args) }, n + args.length)
  | .loop _ => (node, n)

variable (g : Graph)

def addNode (next : Nat) (node : Node) : Graph × Nat :=
  let (node, next) := placeNode next node
  ({ g with nodes := g.nodes.insert node.id node }, next)

def addNamed (source : NodeId) (target : Option String) (kind : EdgeKind) : Result Graph :=
  match target with
  | none => .error .notANumber
  | some t => .ok (g.addEdge source t { edge := kind })

def addStructure (r : NodeRecord) : Result Graph := do
  let source := r.id.getD ""
  let successors := ((r.element.child? "successors").map (·.childrenOf "CU")).getD []
  let g ← successors.foldlM (fun g s =>
    if s.text? == some source then pure g else g.addNamed source s.text? .successor) g
  let g ← (r.called.getD []).foldlM (fun g c => g.addNamed source c.callee .call) g
  return r.children.foldl (fun g c =>
    if g.hasLink source c then g else g.addEdge source c { edge := .child }) g

def addLoopCounts (loops : Table LineId LoopCount) : Graph :=
  { g with
    nodes := g.nodes.map fun _ n =>
      match n.body, loops.get? n.start with
      | .loop b, some c => { n with body := .loop { b with count := some c, iterations := c.total } }
      | _, _ => n }

def variableNames (id : NodeId) : Result (List (Option String)) := do
  let b ← (← g.node id).unit?.getDM (.error .missingProperty)
  return (b.locals ++ b.globals).map (·.name)

/-- The units whose first write to a region a record tells: those that read on the line, or else
those that write on it. -/
def initialUnits (u : UnitFile) (line : LineId) : List NodeId :=
  if (u.readers.getD line []).isEmpty then u.writers.getD line [] else u.readers.getD line []

/-- The pairs of units on the lines of a recorded dependence. -/
def pairsOnLines (u : UnitFile) (d : DependenceRecord) : List (NodeId × NodeId) :=
  if d.type == "INIT" then (initialUnits u d.sink).map fun id => (id, id)
  else (u.readers.getD d.sink []).flatMap fun sink => (u.writers.getD d.source []).map fun source => (sink, source)

/-- The arc of a recorded dependence between two units. Only the first write to a region need not
concern a variable of one of them. -/
def arcsBetween (d : DependenceRecord) (p : NodeId × NodeId) : Result (List Arc) := do
  if d.type == "INIT" then return [⟨p.1, p.2, ← d.dependence⟩]
  let sinkNames ← g.variableNames p.1
  let sourceNames ← g.variableNames p.2
  if !sinkNames.contains (some d.var) && !sourceNames.contains (some d.var) then return []
  if p.1 == "" || p.2 == "" then return []
  return [⟨p.1, p.2, ← d.dependence⟩]

/-- The arcs of a recorded dependence. -/
def recordArcs (u : UnitFile) (d : DependenceRecord) : Result (List Arc) :=
  List.flatten <$> (pairsOnLines u d).mapM (g.arcsBetween d)

def mainOf : Option NodeId :=
  ((g.allNodes.filter fun n => n.name == some "main").getLast?).map (·.id)

/-- Does an edge lead to a node that is not described? -/
def hasUnknownTarget : Bool := g.links.any fun l => !g.nodes.contains l.target

end Graph

def ProgramInput.skeleton (p : ProgramInput) : Result Graph := do
  let nodes ← p.units.records.mapM NodeRecord.toNode
  let (g, _) := nodes.foldl (fun (g, next) n => g.addNode next n) (({} : Graph), 0)
  let g ← p.units.records.foldlM Graph.addStructure g
  return g.addLoopCounts p.loops

def ProgramInput.toGraph (p : ProgramInput) : Result Graph := do
  let s ← p.skeleton
  let arcs ← p.dependences.mapM (s.recordArcs p.units)
  let g := s.addArcs arcs.flatten
  if g.hasUnknownTarget then throw .missingProperty
  return { g with main := g.mainOf, reductions := p.reductions }

def loadGraph (files : Files) (paths : ProgramPaths) : Result Graph := do
  (← ProgramInput.load files paths).toGraph

end ParallelPatterns
