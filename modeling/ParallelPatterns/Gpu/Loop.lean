import ParallelPatterns.Gpu.Directive
import ParallelPatterns.Gpu.Transfer
import ParallelPatterns.Input.MemoryRegions
import ParallelPatterns.Pattern.DoAll

/-!
# Loops for an accelerator

A parallel loop that can run on a device: the variables that must be copied there and back, the
loops nested in it, the functions it calls, and the constructs that offload it.
-/

namespace ParallelPatterns

structure GpuLoop where
  site : PatternSite
  file : Int
  startLine : Int
  endLine : Int
  iterations : Int
  folder : String
  mapTo : List Variable := []
  mapFrom : List Variable := []
  mapToFrom : List Variable := []
  mapAlloc : List Variable := []
  nested : List NodeId := []
  called : List NodeId := []
  reductionTexts : List String := []
  reductionVariables : List Variable := []
  next : Option NodeId := none
  parent : String := ""
  collapse : Int := 1
  constructs : List Construct := []
  declared : List Variable := []
  deriving Inhabited

namespace GpuLoop

variable (p : GpuLoop)

def attributes (e : PatternEncoding) : List (String × Json) :=
  p.site.attributes ++
    [("has_scalar_reduction_var", .bool false), ("nodeID", .str p.site.node),
      ("startLine", .int p.startLine), ("endLine", .int p.endLine),
      ("iterationCount", .int p.iterations), ("project_folder_path", .str p.folder),
      ("map_type_to", e.vars p.mapTo), ("map_type_tofrom", e.vars p.mapToFrom),
      ("map_type_alloc", e.vars p.mapAlloc), ("map_type_from", e.vars p.mapFrom),
      ("nestedLoops", .strings p.nested), ("called_functions", .strings p.called),
      ("reduction_vars_str", .strings p.reductionTexts),
      ("reduction_vars_ids", e.vars p.reductionVariables), ("iteration_count", .int 0),
      ("nextLoop", .optionStr p.next), ("parentLoop", .str p.parent), ("collapse", .int p.collapse),
      ("scheduling", .str ""), ("constructs", .arr (p.constructs.map fun c => .obj c.attributes)),
      ("declared_global_variables", e.vars p.declared)]

def nameOf (v : Variable) : Result String :=
  v.name.getDM (.error .wrongSort)

def namesText (vs : List Variable) : Result String := do
  return ", ".intercalate (← vs.mapM nameOf)

/-- The variables by the directions in which they are copied. -/
def mappings : List (String × List Variable) :=
  [("alloc", p.mapAlloc), ("to", p.mapTo), ("from", p.mapFrom), ("tofrom", p.mapToFrom)]

def isMapped (direction : String) (name : Option String) : Bool :=
  p.mappings.any fun m => m.1 == direction && m.2.any fun v => v.name == name

def mappingLines : Result (List String) := do
  let groups ← p.mappings.mapM fun m => do
    return ("map_type_" ++ m.1 ++ ": ") :: (← m.2.mapM fun v => do return "    " ++ (← nameOf v))
  return ["#pragma omp target data ", p.site.node ++ " = " ++ p.site.startLine ++ " " ++ p.site.endLine] ++
    groups.flatten

def mappingText : Result String := do
  return String.join ((← p.mappingLines).map (· ++ "\n"))

def reductionText (g : Graph) (v : Variable) : Result String :=
  match g.operator? v, v.name with
  | some op, some n => .ok (op ++ ":" ++ n)
  | _, _ => .error .wrongSort

end GpuLoop

namespace Graph

def nestedLoopsGo (g : Graph) : Nat → NodeId → Result (List NodeId)
  | 0, _ => .error .endless
  | fuel + 1, id =>
    ((g.children id).filter (·.isLoop)).foldlM (fun found c => do
      return addAll (addNew found c.id) (← nestedLoopsGo g fuel c.id)) []

variable (g : Graph)

def nestedLoops (id : NodeId) : Result (List NodeId) := g.nestedLoopsGo (g.size + 1) id

def calledFunctions (n : Node) : List NodeId := (g.subtreeOf n [.function]).map (·.id)

def bareGpuLoop (loop : Node) (iterations : Int) (folder : String) (reduction : List Variable) :
    Result GpuLoop := do
  return {
    site := .ofNode loop, file := loop.file, startLine := loop.startLine, endLine := loop.endLine
    iterations, folder, reductionTexts := ← reduction.mapM (GpuLoop.reductionText g)
    reductionVariables := reduction }

variable (c : LoopContext)

def comesIn (v : Variable) (regions : List Region) : Result Bool := do
  if Access.writtenIn regions c.accesses.raw c.accesses.waw c.left then return true
  if ← g.isArgument v.name c.loop then return true
  if !isGlobal v.name c.units then return false
  let f ← g.parentFunction c.loop
  return !(← f.containsLine (← v.defLine.getDM (.error .missingProperty)))

def loopMapType (v : Variable) (regions : List Region) : Result MapType := do
  let a := c.accesses
  if ← g.comesIn c v regions then
    if Access.readOnly regions a.war a.waw a.reverseRaw then return .toDevice
    else if Access.readBeyond regions a.reverseRaw c.units then return .both
    else if Access.writtenIn regions a.raw a.waw c.units then return .allocated
    else return .none
  else if Access.firstWritten regions a.raw a.war c.units then
    return if Access.readInSubtree regions a.reverseRaw c.right then .fromDevice else .allocated
  else return .none

def knownVariables : Result VariableRegions := do
  let before := g.variablesOf (← g.beside c.loop false true)
  return (g.initialised c.units).foldl (fun (t : VariableRegions) (v, rs) =>
    rs.foldl (fun t r => VariableRegions.note t v r) (t.declare v)) before

def knownOver (known : VariableRegions) (regions : List Region) : List Variable :=
  (known.filter fun e => e.2.any regions.contains).map (·.1)

end Graph

def noteOperator (loop : Node) (v : Variable) : Analysis Unit := do
  let g ← Analysis.graph
  if loop.reduction then
    if ← Analysis.lift (g.isReductionVariable loop.start v.name) then
      let sign ← Analysis.lift (g.reductionSign loop.start v.name)
      modify fun g => g.setOperator v sign

def classifyGpuLoop (loop : Node) (p : GpuLoop) : Analysis GpuLoop := do
  let g ← Analysis.graph
  let c ← Analysis.lift (g.loopContext loop)
  let vars ← Analysis.lift (g.outsideVariables loop true)
  let classes ← classifyLoop loop
  let types ← vars.filterMapM fun (v, regions) => do
    let g ← Analysis.graph
    if classes.privates.any (fun q => q.name == v.name) || g.isLoopIndexBelow loop v.name then
      return none
    noteOperator loop v
    let type ← Analysis.lift (g.loopMapType c v regions)
    return some (type, regions)
  let known ← Analysis.query (·.knownVariables c)
  let mapped (t : MapType) : List Variable :=
    Graph.knownOver known ((types.filter fun e => e.1 == t).flatMap (·.2))
  return { p with
    called := addAll p.called (g.calledFunctions loop)
    mapTo := mapped .toDevice, mapFrom := mapped .fromDevice
    mapToFrom := mapped .both, mapAlloc := mapped .allocated }

def gpuLoop (loop : Node) (folder : String) (reduction : List Variable) : Analysis GpuLoop := do
  let p ← Analysis.query (·.bareGpuLoop loop ((loop.iterations?).getD (-1)) folder reduction)
  let nested ← Analysis.query (·.nestedLoops loop.id)
  classifyGpuLoop loop { p with nested, parent := loop.id }

namespace Graph

variable (g : Graph)

/-- A variable as an argument of a map clause: pointers to pointers show their number of elements,
as far as the size of their memory is known. -/
def mapArgument (files : Files) (folder : String) (units : List Node) (v : Variable) : Result String := do
  let regions := match v.name with
    | some n => g.regionsOf units n
    | none => []
  let sizes ← MemoryRegions.sizes files (Files.join folder "memory_regions.txt") regions
  let name ← GpuLoop.nameOf v
  if !Text.has "**" (← v.type.getDM (.error .wrongSort)) then return name
  match sizes.values.max? with
  | some size => return name ++ "[:" ++ toString (size.tdiv v.size) ++ "]"
  | none => return name ++ "[:]"

def gpuClauses (files : Files) (p : GpuLoop) : Result (List String) := do
  let units := g.subtreeUnits (← g.node p.site.node)
  -- the clause for new memory comes last
  let mapped ← (p.mappings.rotateLeft.filter fun m => !m.2.isEmpty).mapM fun m => do
    Clause.write ("map(" ++ m.1 ++ ": args)") (← m.2.mapM (g.mapArgument files p.folder units))
  if p.reductionTexts.isEmpty then return mapped
  return mapped ++ [← Clause.write "reduction(args)" p.reductionTexts]

def outerGlobals (f : Node) : Result (List Variable) :=
  ((g.subtreeUnits f).flatMap (·.globals)).filterM fun v =>
    match v.defLine with
    | some line => if line == "" then .ok false else do return !(← f.containsLine line)
    | none => .ok false

def distinctVariables (vs : List Variable) : List Variable :=
  vs.foldl (fun found v => if found.any fun u => u.name == v.name then found else found ++ [v]) []

def functionConstructs (f : Node) : List Construct :=
  [{ name := "#pragma omp declare target", line := position f.file f.startLine, clauses := [] },
    { name := "#pragma omp end declare target", line := position f.file (f.endLine + 1), clauses := []
      place := .after }]

def globalConstructs (v : Variable) : Result (List Construct) := do
  let name ← GpuLoop.nameOf v
  let line := v.defLine.getD ""
  return [{ name := "#pragma omp declare target  // " ++ name, line, clauses := [] },
    { name := "#pragma omp end declare target  // " ++ name, line, clauses := [], place := .after }]

def gpuConstructs (files : Files) (p : GpuLoop) : Result (List Construct × List Variable) := do
  let clauses ← g.gpuClauses files p
  let head : Construct :=
    { name := "#pragma omp target teams distribute parallel for", line := position p.file p.startLine
      clauses }
  let functions ← p.called.mapM g.node
  let globals := distinctVariables (← functions.mapM g.outerGlobals).flatten
  return (head :: functions.flatMap functionConstructs ++ (← globals.mapM globalConstructs).flatten,
    globals)

end Graph

namespace GpuLoop

def declare (p : GpuLoop) (vs : List Variable) : GpuLoop :=
  { p with declared := Graph.distinctVariables (p.declared ++ vs) }

def withConstructs (g : Graph) (files : Files) (p : GpuLoop) : Result GpuLoop := do
  let (constructs, globals) ← g.gpuConstructs files p
  return { p.declare globals with constructs }

def objects (vs : List Variable) : String := Text.listLiteral (vs.map fun _ => "<Variable>")

def text (g : Graph) (files : Files) (p : GpuLoop) : Result (String × GpuLoop) := do
  let (constructs, globals) ← g.gpuConstructs files p
  let kind := if p.reductionTexts.isEmpty then "DoAll (GPU)" else "Reduction (GPU)"
  let shown := String.join (constructs.map fun c => c.text ++ "\n")
  return (Text.fields [(kind ++ " at", p.site.node), ("Start line", toString p.startLine),
    ("End line", toString p.endLine), ("Collapse", toString p.collapse), ("Map to", objects p.mapTo),
    ("Map from", objects p.mapFrom), ("Map to_from", objects p.mapToFrom), ("Map alloc", objects p.mapAlloc),
    ("Reduction vars", Text.listLiteral (p.reductionTexts.map Text.literal)),
    ("OpenMP constructs", "\n" ++ shown)] ++ "\n", p.declare globals)

def record (g : Graph) (files : Files) (p : GpuLoop) : Result String := do
  let _ ← g.gpuConstructs files p
  .error .wrongSort

end GpuLoop

namespace Graph

def rankedLoopsGo (g : Graph) (top : Int) : Nat → Node → Result String
  | 0, _ => .error .endless
  | fuel + 1, n => do
    let own := n.iterations?.getD (-1)
    let count := if top == 0 then "0" else Decimal.shortest (Float.ofInt own / Float.ofInt top)
    let below ← ((g.children n.id).filter (·.isLoop)).mapM (rankedLoopsGo g top fuel)
    return " " ++ toString n.startLine ++ "-" ++ count ++ String.join below

variable (g : Graph)

/-- The data that ranks a loop: its place, the variables to transfer, and its nested loops. The
reduction variables are counted among those that go both ways. -/
def rankText (p : GpuLoop) : Result (String × List Variable) := do
  let (file, _) ← parseId p.site.node
  let head := toString file ++ ":" ++ toString p.startLine ++ " " ++
    (if p.reductionTexts.isEmpty then "0" else "1") ++ " 0 "
  let there ← GpuLoop.namesText p.mapTo
  let back ← GpuLoop.namesText p.mapFrom
  let both := p.mapToFrom ++ p.reductionVariables
  let bothText ← GpuLoop.namesText both
  let n ← g.node p.site.node
  let below ← ((g.children n.id).filter (·.isLoop)).mapM
    (g.rankedLoopsGo (n.iterations?.getD (-1)) (g.size + 1))
  return (head ++ "[" ++ there ++ "] [" ++ back ++ "] [" ++ bothText ++ "]" ++ String.join below, both)

/-- Can a nested loop be collapsed with the loop around it? It is a do-all loop that begins two
steps behind the entry of the outer loop, whose body holds nothing else. -/
def isCollapsible (doAll : List NodeId) (loop entry inner : Node) : Bool :=
  inner.isLoop && inner.endLine ≤ loop.endLine && doAll.contains inner.id &&
    ((g.entryNode inner).any fun e =>
      (g.successors entry.id).any fun s => (g.successors s.id).any fun t => t.id == e.id) &&
    (g.children loop.id).length == 5

def collapsedLoopsGo (g : Graph) (doAll : List NodeId) : Nat → Node → Result Int
  | 0, _ => .error .endless
  | fuel + 1, loop => do
    let entry ← ((g.entryNode loop).or (g.children loop.id).head?).getDM (.error .outOfRange)
    ((g.children loop.id).filter (g.isCollapsible doAll loop entry)).foldlM (fun n inner => do
      return n + 1 + (← collapsedLoopsGo g doAll fuel inner)) 0

def collapsedLoops (doAll : List NodeId) (loop : Node) : Result Int :=
  g.collapsedLoopsGo doAll (g.size + 1) loop

end Graph

end ParallelPatterns
