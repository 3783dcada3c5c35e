import ParallelPatterns.Device.Region
import ParallelPatterns.Pattern.GeometricDecomposition
import ParallelPatterns.Pattern.Pipeline

/-!
# What was found in a program

The patterns found in a program, each kind in the place where it was first looked for.
-/

namespace ParallelPatterns

inductive PatternKind where
  | reduction
  | doAll
  | pipeline
  | geometric
  | gpu
  | combined
  deriving DecidableEq, Repr

/-- The patterns found in a program; a kind that was not looked for has none. -/
structure Findings where
  reductions : Option (List ReductionPattern) := none
  doAll : Option (List DoAllPattern) := none
  pipelines : Option (List PipelinePattern) := none
  geometric : Option (List GeometricPattern) := none
  gpu : Option (List GpuRegion) := none
  combined : Option (List CombinedRegion) := none
  order : List PatternKind := []
  deriving Inhabited

namespace Findings

variable (f : Findings)

def withReductions (ps : List ReductionPattern) : Findings :=
  { f with reductions := some ps, order := addNew f.order .reduction }

def withDoAll (ps : List DoAllPattern) : Findings :=
  { f with doAll := some ps, order := addNew f.order .doAll }

def withPipelines (ps : List PipelinePattern) : Findings :=
  { f with pipelines := some ps, order := addNew f.order .pipeline }

def withGeometric (ps : List GeometricPattern) : Findings :=
  { f with geometric := some ps, order := addNew f.order .geometric }

def withGpu (rs : List GpuRegion) : Findings :=
  { f with gpu := some rs, order := addNew f.order .gpu }

def withCombined (rs : List CombinedRegion) : Findings :=
  { f with combined := some rs, order := addNew f.order .combined }

def textsOf (g : Graph) (files : Files) (f : Findings) : PatternKind → Result (List String × Findings)
  | .reduction => do return (← (f.reductions.getD []).mapM (ReductionPattern.text g), f)
  | .doAll => .ok ((f.doAll.getD []).map DoAllPattern.text, f)
  | .pipeline => .ok ((f.pipelines.getD []).map PipelinePattern.text, f)
  | .geometric => .ok ((f.geometric.getD []).map GeometricPattern.text, f)
  | .gpu => do
    let shown ← (f.gpu.getD []).mapM (GpuRegion.text g files)
    return (shown.map (·.1), { f with gpu := some (shown.map (·.2)) })
  | .combined => do return (← (f.combined.getD []).mapM (CombinedRegion.text g files), f)

def text (g : Graph) (files : Files) (f : Findings) : Result (String × Findings) :=
  f.order.foldlM (fun (s, f) kind => do
    let (texts, f) ← f.textsOf g files kind
    return (s ++ "\n\n\n" ++ String.join (texts.map (· ++ "\n\n")), f)) ("", f)

def attributesOf (e : PatternEncoding) : PatternKind → List (List (String × Json))
  | .reduction => (f.reductions.getD []).map fun p => p.attributes e
  | .doAll => (f.doAll.getD []).map fun p => p.attributes e
  | .pipeline => (f.pipelines.getD []).map fun p => p.attributes e
  | .geometric => (f.geometric.getD []).map fun p => p.attributes e
  | .gpu => (f.gpu.getD []).map fun p => p.attributes e
  | .combined => (f.combined.getD []).map fun p => p.attributes e

end Findings

def PatternKind.name : PatternKind → String
  | reduction => "reduction"
  | doAll => "do_all"
  | pipeline => "pipeline"
  | geometric => "geometric_decomposition"
  | gpu => "simple_gpu"
  | combined => "combined_gpu"

def PatternKind.all : List PatternKind := [reduction, doAll, pipeline, geometric, gpu, combined]

def PatternKind.ofName? (s : String) : Option PatternKind := all.find? fun k => k.name == s

/-- The members that a graph is stored with; the main function is one if it is known. -/
def Graph.storedMembers (g : Graph) : List String :=
  ["py/object", "g", "reduction_vars", "pos"] ++ g.main.toList.map fun _ => "main"

/-- The members that the patterns are stored with: the graph, and one for each kind that was looked
for. -/
def Findings.storedMembers (f : Findings) : List String := "py/object" :: "pet" :: f.order.map (·.name)

end ParallelPatterns
