import ParallelPatterns.Graph.Analysis
import ParallelPatterns.Graph.Traversal

/-!
# Workloads

The workload of a node is the number of its instructions, those of a loop's body counted once for
every iteration. Workloads are noted at the nodes when they are computed.
-/

namespace ParallelPatterns

/-- What a unit inside a loop adds to the loop's workload: the step of the loop counts once, its
condition once more than the iterations. -/
def unitWorkload (b : UnitBody) (iterations : Int) : Result Int := do
  let block ← b.block.getDM (.error .wrongSort)
  if Text.has "for.inc" block then return b.instructions
  else if Text.has "for.cond" block then return b.instructions * iterations + 1
  else return b.instructions * iterations

/-- The workload of a node, with a way to get those of its children. -/
def workloadOver (below : NodeId → Analysis Int) (n : Node) (children : List Node) : Analysis Int :=
  match n.body with
  | .dummy _ => pure 0
  | .unit b => pure b.instructions
  | .function _ => children.foldlM (fun w c => do return w + (← below c.id)) 0
  | .loop b => children.foldlM (fun w c => do
      match c.unit? with
      | some u => return w + (← Analysis.lift (unitWorkload u b.iterations))
      | none => return w + (← below c.id) * b.iterations) 0

def workloadGo : Nat → NodeId → Analysis Int
  | 0, _ => throw .endless
  | fuel + 1, id => do
    let n ← Analysis.query (·.node id)
    match n.workload with
    | some w => return w
    | none =>
      let total ← workloadOver (workloadGo fuel) n ((← Analysis.graph).children id)
      Analysis.modifyNode id fun n => { n with workload := some total }
      return total

def workload (id : NodeId) : Analysis Int := do workloadGo ((← Analysis.graph).size + 2) id

end ParallelPatterns
