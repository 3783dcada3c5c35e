import ParallelPatterns.Dataflow.TaskVariables
import ParallelPatterns.Pattern.Basic
import ParallelPatterns.Pattern.StageMatrix

/-!
# Pipelines

A loop whose children form a chain of dependences can run as a pipeline, each child as a stage.
-/

namespace ParallelPatterns

structure PipelineStage where
  node : NodeId
  startLine : LineId
  endLine : LineId
  vars : TaskVariables
  deriving Inhabited

/-- A loop that can run as a pipeline. -/
structure PipelinePattern where
  site : PatternSite
  coefficient : Measure
  stages : List PipelineStage
  deriving Inhabited

namespace PipelineStage

def attributes (s : PipelineStage) (e : PatternEncoding) : List (String × Json) :=
  [("node", .str s.node), ("startsAtLine", .str s.startLine), ("endsAtLine", .str s.endLine),
    ("first_private", e.vars s.vars.firstPrivate), ("private", e.vars s.vars.privates),
    ("shared", e.vars s.vars.shared), ("reduction", .strings s.vars.reduction),
    ("in_deps", e.vars s.vars.dependIn), ("out_deps", e.vars s.vars.dependOut),
    ("in_out_deps", e.vars s.vars.dependInOut)]

def text (s : PipelineStage) : String :=
  Text.fields [("\tNode", s.node), ("\tStart line", s.startLine), ("\tEnd line", s.endLine),
    ("\tpragma", "\"#pragma omp task\""), ("\tfirst private", namesLiteral s.vars.firstPrivate),
    ("\tprivate", namesLiteral s.vars.privates), ("\tshared", namesLiteral s.vars.shared),
    ("\treduction", Text.listLiteral (s.vars.reduction.map Text.literal)),
    ("\tInDeps", namesLiteral s.vars.dependIn), ("\tOutDeps", namesLiteral s.vars.dependOut),
    ("\tInOutDeps", namesLiteral s.vars.dependInOut)]

end PipelineStage

namespace PipelinePattern

/-- The least coefficient above which a loop counts as a pipeline. -/
def threshold : Float := 0.9

def attributes (p : PipelinePattern) (e : PatternEncoding) : List (String × Json) :=
  p.site.attributes ++ [("coefficient", .ofMeasure p.coefficient),
    ("stages", .arr (p.stages.map fun s => e.part (s.attributes e)))]

def text (p : PipelinePattern) : String :=
  Text.fields (p.site.fields "Pipeline") ++ "\nStages:\n" ++ "\n\n".intercalate (p.stages.map (·.text))

end PipelinePattern

namespace Graph

variable (g : Graph)

def stageInputs (before : List Node) (stage : Node) : List Edge :=
  let ids := stage.id :: (before.flatMap fun s => (g.subtreeUnits s).map (·.id))
  ((g.subtreeUnits stage).flatMap fun u => g.outDataOf u.id .readAfterWrite).filter fun e =>
    ids.contains e.target

def stageOutputs (behind : List Node) (stage : Node) : List Edge :=
  let ids := stage.id :: (behind.flatMap fun s => (g.subtreeUnits s).map (·.id))
  ((g.subtreeUnits stage).flatMap fun u => g.inDataOf u.id .readAfterWrite).filter fun e =>
    ids.contains e.source

def pipelineStage (stages : List Node) (stage : Node) : Result PipelineStage := do
  let place := stages.findIdx fun s => s.alike stage
  let inputs := g.stageInputs (stages.take place) stage
  let outputs := g.stageOutputs (stages.drop (place + 1)) stage
  let vars ← g.classifyTask stage "Pipeline" inputs outputs false
  return { node := stage.id, startLine := stage.start, endLine := stage.finish, vars }

def pipelineOf (loop : Node) (coefficient : Measure) : Result PipelinePattern := do
  let stages := g.stages loop
  return {
    site := .ofNode loop, coefficient := coefficient.round 3
    stages := ← stages.mapM (g.pipelineStage stages) }

end Graph

def detectPipelines : Analysis (List PipelinePattern) := do
  let loops := (← Analysis.graph).loops
  let found ← loops.foldlM (fun (found : List PipelinePattern) l => do
    let g ← Analysis.graph
    let c ← Analysis.lift (g.pipelineCoefficient l)
    Analysis.modifyNode l.id fun n => { n with pipeline := c }
    if PipelinePattern.threshold < c.toFloat then
      return found ++ [← Analysis.lift (g.pipelineOf l c)]
    else return found) []
  found.mapM fun p => do return { p with site := ← p.site.withWorkload }

end ParallelPatterns
