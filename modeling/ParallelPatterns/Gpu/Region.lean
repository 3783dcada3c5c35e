import ParallelPatterns.Gpu.Loop

/-!
# Regions for an accelerator

Consecutive loops for an accelerator form a region, in which data can stay on the device. A region
knows the nodes inside of it, the variables that must be copied for its loops, and the variables it
consumes and produces.
-/

namespace ParallelPatterns

/-- Loops that run on a device one after another. -/
structure GpuRegion where
  site : PatternSite
  loops : List GpuLoop
  units : List NodeId
  mapTo : List (Option String)
  mapFrom : List (Option String)
  mapToFrom : List (Option String)
  mapAlloc : List (Option String)
  produced : List String
  consumed : List String
  folder : String
  deriving Inhabited

namespace GpuRegion

def attributes (r : GpuRegion) (e : PatternEncoding) : List (String × Json) :=
  let names (xs : List (Option String)) : Json := .arr (xs.map .optionStr)
  r.site.attributes ++
    [("contained_loops", .arr (r.loops.map fun l => e.part (l.attributes e))),
      ("contained_cu_ids", .strings r.units), ("map_to_vars", names r.mapTo),
      ("map_from_vars", names r.mapFrom), ("map_to_from_vars", names r.mapToFrom),
      ("map_alloc_vars", names r.mapAlloc), ("map_delete_vars", .arr []),
      ("produced_vars", .strings r.produced), ("consumed_vars", .strings r.consumed),
      ("project_folder_path", .str r.folder)]

def text (g : Graph) (files : Files) (r : GpuRegion) : Result (String × GpuRegion) := do
  let shown ← r.loops.mapM (GpuLoop.text g files)
  let names (xs : List (Option String)) : String := Text.listLiteral (xs.map Text.optionLiteral)
  let inset (s : String) : String := String.join ((Text.split "\n" s).map fun l => "\t" ++ l ++ "\n")
  return (Text.fields (r.site.fields "GPU Region" ++
    [("Map to", names r.mapTo), ("Map from", names r.mapFrom), ("Map to/from", names r.mapToFrom),
      ("Map alloc", names r.mapAlloc), ("Map delete", "[]"),
      ("Contained patterns", (if r.loops.isEmpty then "" else "\n") ++
        String.join (shown.map fun s => inset s.1))]) ++
    "\n", { r with loops := shown.map (·.2) })

def entries (g : Graph) (r : GpuRegion) : List NodeId :=
  r.units.filter fun u => (g.inEdgesOf u [.successor]).any fun e => !r.units.contains e.source

def exits (g : Graph) (r : GpuRegion) : List NodeId × List NodeId :=
  let leaving (u : NodeId) : List Edge :=
    (g.outEdgesOf u [.successor]).filter fun e => !r.units.contains e.target
  (r.units.filter fun u => !(leaving u).isEmpty,
    distinct (r.units.flatMap fun u => (leaving u).map (·.target)))

end GpuRegion

namespace GpuLoop

/-- Walks through the loops from place `i` on and notes for each the next loop that is not nested in
it. Nested loops are skipped by their number. -/
def linkNextGo (loops : List GpuLoop) : Nat → Nat → List (Nat × NodeId)
  | 0, _ => []
  | fuel + 1, i =>
    match loops[i]? with
    | none => []
    | some p =>
      let skipped := total (p.nested.map fun k => loops.countP fun q => q.site.node == k)
      let last := i + skipped
      match loops[last + 1]? with
      | some q => (i, q.site.node) :: linkNextGo loops fuel (last + 1)
      | none => linkNextGo loops fuel (last + 1)

def linkNext (loops : List GpuLoop) : List GpuLoop :=
  let links := linkNextGo loops loops.length 0
  loops.mapIdx fun i p =>
    match links.lookup i with
    | some id => { p with next := some id }
    | none => p

end GpuLoop

namespace Graph

variable (g : Graph)

def firstChild (id : NodeId) : Result Node := (g.children id).head?.getDM (.error .outOfRange)

def followsDirectly (loop next : NodeId) : Result Bool := do
  let _ ← g.node loop
  let n ← g.node next
  if !n.isLoop then return false
  let first ← g.firstChild loop
  let e ← (g.outEdgesOf first.id [.successor]).getLast?.getDM (.error .outOfRange)
  let nextFirst ← g.firstChild next
  match g.outEdgesOf e.target [.successor] with
  | s :: _ => return nextFirst.id == s.target
  | [] => return false

/-- Groups loops, each with its next loop, into regions: a next loop that follows directly joins the
last region, another one opens a new region. -/
def gpuRegionsOf (loops : List GpuLoop) : Result (List (List NodeId)) :=
  match loops with
  | [] => .error .outOfRange
  | first :: _ =>
    loops.foldlM (fun regions p =>
      match p.next with
      | none => .ok regions
      | some next => do
        if !(← g.node next).isLoop then return regions
        if ← g.followsDirectly p.site.node next then
          return regions.dropLast ++ [regions.getLastD [] ++ [next]]
        else return regions ++ [[next]]) [[first.site.node]]

def regionNodes (loops : List NodeId) : Result (List Node) :=
  loops.foldlM (fun nodes id => do
    let loop ← g.node id
    let nodes := nodes ++ (g.subtree loop).filter fun n => !n.among nodes
    match g.outEdgesOf id [.child] with
    | [] => .error .outOfRange
    | e :: _ =>
      return (g.sources (g.inEdgesOf e.target [.successor])).foldl (fun nodes p =>
        if loop.startLine ≤ p.startLine && p.endLine ≤ loop.endLine && !p.among nodes
        then nodes ++ [p] else nodes) nodes) []

def consumedBy (nodes : List Node) : List String :=
  distinct (nodes.flatMap fun n => (g.outDataOf n.id .readAfterWrite).filterMap fun e =>
    if (g.node? e.target).any (·.among nodes) then none else e.dep.var)

def producedBy (nodes : List Node) : List String :=
  distinct (nodes.flatMap fun n =>
    ((g.inData n.id).filter fun e =>
      e.dep.isKind .readAfterWrite || e.dep.isKind .writeAfterWrite).filterMap fun e =>
        if (g.node? e.source).any (·.among nodes) then none else e.dep.var)

def gpuRegion (files : Files) (folder : String) (loops : List GpuLoop) (ids : List NodeId)
    (nodes : List Node) : Result GpuRegion := do
  let mapped := ids.filterMap fun id => loops.find? fun p => p.parent == id
  let names (f : GpuLoop → List Variable) : List (Option String) :=
    distinct (mapped.flatMap fun p => (f p).map (·.name))
  let there := names fun p => p.mapTo ++ p.mapToFrom
  let back := names fun p => p.mapFrom ++ p.mapToFrom
  let both := there.filter back.contains
  let consumed := g.consumedBy nodes
  let alloc := names (·.mapAlloc)
  let unknown := back.filter fun v => !((consumed.map some) ++ there ++ alloc).contains v
  let inside ← (loops.filter fun p => ids.contains p.site.node).mapM (GpuLoop.withConstructs g files)
  let called := inside.flatMap fun p => p.called.flatMap fun f => (g.children f).map (·.id)
  return {
    site := ← PatternSite.around g (inside.map (·.site))
    loops := inside, units := distinct (nodes.map (·.id) ++ called)
    mapTo := there.filter fun v => !both.contains v
    mapFrom := back.filter fun v => !both.contains v
    mapToFrom := both, mapAlloc := distinct (alloc ++ unknown)
    produced := g.producedBy nodes, consumed, folder }

def gpuRegions (files : Files) (folder : String) (loops : List GpuLoop) : Result (List GpuRegion) := do
  let loops := GpuLoop.linkNext loops
  let regions ← g.gpuRegionsOf loops
  let nodes ← regions.mapM fun ids => do return (ids, ← g.regionNodes ids)
  nodes.mapM fun (ids, nodes) => g.gpuRegion files folder loops ids nodes

def regionMappingText (loops : List GpuLoop) : Result String := do
  let loops := GpuLoop.linkNext loops
  let regions ← g.gpuRegionsOf loops
  let texts ← (regions.flatten.filterMap fun id => loops.find? fun p => p.site.node == id).mapM
    GpuLoop.mappingText
  return String.join texts ++ "==============================================\n"

def insideLoop (n : Node) : Result Bool := do
  let main ← g.node (← g.main.getDM (.error .missingProperty))
  return (g.path main n).any fun p => p.id != n.id && p.isLoop

def reductionVariablesAt (reductions : List ReductionPattern) (id : NodeId) : List Variable :=
  ((reductions.find? fun r => r.site.node == id).map (·.vars.reduction)).getD []

end Graph

/-- Can a loop run on a device? It is a do-all loop or a reduction without variables whose last
value is needed. -/
def isOffloadable (reductions : List ReductionPattern) (doAll : List DoAllPattern) (id : NodeId) : Bool :=
  (doAll.any fun d => d.site.node == id && d.vars.lastPrivate.isEmpty) ||
    reductions.any fun r => r.site.node == id && r.vars.lastPrivate.isEmpty

/-- Finds the regions of a program that can run on a device. -/
def detectGpuRegions (files : Files) (folder : String) (reductions : List ReductionPattern)
    (doAll : List DoAllPattern) : Analysis (List GpuRegion) := do
  let loops := (← Analysis.graph).loops.filter fun l => isOffloadable reductions doAll l.id
  let patterns ← loops.mapM fun l => do
    let loop ← Analysis.query (·.node l.id)
    gpuLoop loop folder (Graph.reductionVariablesAt reductions l.id)
  if patterns.isEmpty then return []
  let g ← Analysis.graph
  let patterns ← patterns.mapM fun p => do
    let loop ← Analysis.query (·.node p.site.node)
    let n ← Analysis.lift (g.collapsedLoops (doAll.map (·.site.node)) loop)
    return { p with collapse := p.collapse + n }
  Analysis.lift (g.gpuRegions files folder patterns)

end ParallelPatterns
