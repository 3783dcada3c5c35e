import ParallelPatterns.Pattern.Reduction

/-!
# Do-all loops

A loop is a do-all loop if its iterations can run in any order: no unit accesses files, and no data
dependence between its units is carried from one iteration to another.
-/

namespace ParallelPatterns

/-- A loop whose iterations are independent. -/
structure DoAllPattern where
  site : PatternSite
  vars : LoopVariables
  deriving Inhabited

namespace DoAllPattern

def attributes (p : DoAllPattern) (e : PatternEncoding) : List (String × Json) :=
  p.site.attributes ++ p.vars.attributes e

def text (p : DoAllPattern) : String :=
  Text.fields (p.site.fields "Do-all" ++
    ("pragma", "\"#pragma omp parallel for\"") :: p.vars.fields (namesLiteral p.vars.reduction))

end DoAllPattern

namespace Graph

variable (g : Graph)

/-- Is a dependence carried between iterations of the loop? One that stays inside an iteration is
carried if it belongs to an outer loop. -/
def isCarried (loop : Node) (privates : List (Option String)) (e : Edge) : Result Bool := do
  let beyond : Result Bool := do return (← g.nestingLevel loop.id true) < e.dep.level
  match e.dep.kind with
  | some .readAfterWrite => if e.dep.intraIteration then beyond else return true
  | some .writeAfterRead =>
    if e.dep.intraIteration then beyond else return !privates.contains e.dep.var
  | _ => return false

/-- Does a dependence hinder a do-all loop? Memory of variables that are defined inside of the loop
does not. -/
def hindersDoAll (v : LoopView) (privates : List (Option String)) (inner : List Region) (e : Edge) :
    Result Bool := do
  if v.isHarmless e.dep || Access.concerns inner e then return false
  g.isCarried v.loop privates e

def innerRegions (loop : Node) (units : List Node) : Result (List Region) := do
  let inner ← (g.variablesOf units).filterM fun (v, _) => do
    return definedBetween (← definitionOf v) loop.start loop.finish
  return inner.flatMap (·.2)

def pairs {α : Type} : List α → List (α × α)
  | [] => []
  | x :: xs => (x :: xs).map (fun y => (x, y)) ++ pairs xs

def accessesFiles (units : List Node) : Bool :=
  units.any fun u => u.unit?.any (·.fileAccess)

def isDoAllByChildren (loop : Node) : Bool :=
  let view := g.loopView loop
  !accessesFiles view.units &&
    (pairs (g.childrenOrCalled loop.id)).all fun (a, b) => !g.dependsIn view a b

/-- The data dependences between nodes, met from both of their ends. -/
def dataAmong (ids : List NodeId) : List Edge :=
  ids.flatMap fun id =>
    ((g.inData id).filter fun e => ids.contains e.source) ++
      (g.outData id).filter fun e => ids.contains e.target

def hindersBetweenChildren (v : LoopView) (privates : List (Option String)) (inner : List Region) : Result Bool :=
  (pairs ((g.childrenOrCalled v.loop.id).map g.unitIds)).anyM fun (ids, others) =>
    (g.dataAmong (ids ++ others)).anyM (g.hindersDoAll v privates inner)

end Graph

def isDoAllLoop (loop : Node) : Analysis Bool := do
  let classes ← classifyLoop loop
  let g ← Analysis.graph
  let view := g.loopView loop
  let inner ← Analysis.lift (g.innerRegions loop view.units)
  if Graph.accessesFiles view.units then return false
  return !(← Analysis.lift (g.hindersBetweenChildren view classes.privateNames inner))

def markDoAll (n : Node) : Node := { n with doAll := true }

def countsAsDoAll (n : Node) : Bool := !n.reduction && isReportable n

/-- Finds the do-all loops of a program and marks them. Loops that are reductions are marked, but
not reported again; the shared variables of the reported loops lose their operators. -/
def detectDoAll : Analysis (List DoAllPattern) := do
  let loops := (← Analysis.graph).loops
  let found ← loops.foldlM (detectionTurn isDoAllLoop markDoAll countsAsDoAll DoAllPattern.mk) []
  let found ← found.mapM fun p => do return { p with site := ← p.site.withWorkload }
  modify fun g => (found.flatMap fun p => p.vars.shared).foldl Graph.clearOperator g
  return found

end ParallelPatterns
