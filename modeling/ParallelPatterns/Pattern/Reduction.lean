import ParallelPatterns.Pattern.Basic

/-!
# Reductions

A loop is a reduction if the run reported a reduction variable for it and nothing else hinders its
iterations from running in any order.
-/

namespace ParallelPatterns

/-- A loop whose iterations combine values. -/
structure ReductionPattern where
  site : PatternSite
  vars : LoopVariables
  deriving Inhabited

namespace ReductionPattern

def directive : String := "#pragma omp parallel for"

def attributes (p : ReductionPattern) (e : PatternEncoding) : List (String × Json) :=
  p.site.attributes ++ [("pragma", .str directive)] ++ p.vars.attributes e

def text (g : Graph) (p : ReductionPattern) : Result String := do
  let reductions ← p.vars.reduction.mapM fun v =>
    match g.operator? v, v.name with
    | some op, some n => .ok (Text.literal (op ++ ":" ++ n))
    | _, _ => .error .wrongSort
  return Text.fields (p.site.fields "Reduction" ++
    ("pragma", directive) :: p.vars.fields (Text.listLiteral reductions))

end ReductionPattern

namespace Graph

/-- Does a dependence hinder a reduction? The names are those of the reduction variables and of the
variables that each iteration has its own copy of. -/
def hindersReduction (v : LoopView) (reduced privates : List (Option String)) (e : Edge) : Bool :=
  !v.isHarmless e.dep &&
    match e.dep.kind with
    | some .readAfterWrite =>
      if reduced.contains e.dep.var then e.source != e.target else !e.dep.intraIteration
    | some .writeAfterRead => !e.dep.intraIteration && !privates.contains e.dep.var
    | _ => false

def reportedVariables (g : Graph) (loop : Node) : Result (List Variable) :=
  ((g.subtreeUnits loop).flatMap (·.ownVariables)).filterM fun v =>
    g.isReductionVariable loop.start v.name

def anyIndirect (vs : List Variable) : Result Bool :=
  vs.foldlM (fun found v => do return found || Text.has "**" (← v.type.getDM (.error .wrongSort))) false

end Graph

def isReductionLoop (loop : Node) : Analysis Bool := do
  let g ← Analysis.graph
  let reported ← Analysis.lift (g.reportedVariables loop)
  let classes ← classifyLoop loop
  let g ← Analysis.graph
  let view := g.loopView loop
  let reduced := reported.map (·.name)
  if (g.innerDependences view).any (Graph.hindersReduction view reduced classes.privateNames) then return false
  if ← Analysis.lift (Graph.anyIndirect reported) then
    Analysis.modifyNode loop.id fun n => n.modifyLoop fun b => { b with arrayReduction := true }
  return !reported.isEmpty

def isReportable (n : Node) : Bool := n.loop?.any fun b => 0 ≤ b.iterations && !b.arrayReduction

/-- The turn of a detection for one loop: a loop that passes the test is marked, and reported if it
counts. -/
def detectionTurn {α : Type} (test : Node → Analysis Bool) (mark : Node → Node) (counts : Node → Bool)
    (report : PatternSite → LoopVariables → α) (found : List α) (l : Node) : Analysis (List α) := do
  let loop ← Analysis.query (·.node l.id)
  if !(← test loop) then return found
  Analysis.modifyNode l.id mark
  let loop ← Analysis.query (·.node l.id)
  if counts loop then return found ++ [report (.ofNode loop) (← classifyLoop loop)] else return found

def markReduction (n : Node) : Node := { n with reduction := true }

def detectReductions : Analysis (List ReductionPattern) := do
  let loops := (← Analysis.graph).loops
  let found ← loops.foldlM (detectionTurn isReductionLoop markReduction isReportable ReductionPattern.mk) []
  found.mapM fun p => do return { p with site := ← p.site.withWorkload }

end ParallelPatterns
