import ParallelPatterns.Findings
import ParallelPatterns.Graph.Metadata
import ParallelPatterns.Graph.StaticMapping

/-!
# Detecting all patterns

The program graph is first cleaned: placeholders are removed, statically known regions are mapped to
those seen in the run, and the metadata of functions is computed. Reductions are looked for before
do-all loops, and both before regions for an accelerator, which build on them.
-/

namespace ParallelPatterns

def prepareGraph : Analysis Unit := do
  modify fun g => (g.removePlaceholders false true).mapStaticRegions
  let g ← Analysis.query (·.computeMetadata)
  set g

/-- Finds the patterns that need nothing but the graph. -/
def detectPlain : Analysis Findings := do
  let f : Findings := {}
  let f := f.withReductions (← detectReductions)
  let f := f.withDoAll (← detectDoAll)
  let f := f.withPipelines (← detectPipelines)
  return f.withGeometric (← detectGeometric)

def addGpuRegions (files : Files) (folder : String) (f : Findings) : Analysis Findings := do
  return f.withGpu
    (← detectGpuRegions files folder (f.reductions.getD []) (f.doAll.getD []))

def detectAll (files : Files) (folder : String) : Analysis Findings := do
  prepareGraph
  addGpuRegions files folder (← detectPlain)

namespace Findings

def toJson (g : Graph) (f : Findings) : Json :=
  .obj (f.order.map fun k => (k.name, .arr ((f.attributesOf (.full g) k).map .obj)))

end Findings

end ParallelPatterns
