import ParallelPatterns.Encoding.Graph
import ParallelPatterns.Input.Load

/-!
# What the files of a run say, as JSON
-/

namespace ParallelPatterns

instance : Encode ReductionRecord where
  encode r := .obj [("loop_line", .str r.loopLine), ("name", .str r.name),
    ("reduction_line", .str r.reductionLine), ("operation", .str r.operation)]

instance : Decode ReductionRecord where
  decode j :=
    { loopLine := decode (j.field "loop_line"), name := decode (j.field "name")
      reductionLine := decode (j.field "reduction_line"), operation := decode (j.field "operation") }

instance : Encode ProgramInput where
  encode p := .obj [
    ("nodes", encode (p.units.records.map fun r => (r.id, r.type, r.name, r.children))),
    ("deps", encode (p.dependences.map fun d => (d.sink, d.source, d.type, d.var, d.region))),
    ("loops", encode p.loops.values), ("reduction", encode p.reductions),
    ("read", encode p.units.readers), ("write", encode p.units.writers)]

def Variable.describeAll (vs : List Variable) : Json :=
  let names := vs.map fun v => v.name.getD ""
  .obj [("vars", .arr (vs.map (Variable.describe none))), ("sorted", encode (Unordered.mk names)),
    ("unique", encode (Unordered.mk (distinct names))),
    ("eq_first", encode (vs.map fun v => v.name == (vs.headD v).name)),
    ("eq_str", encode (vs.map fun _ => false))]

def Graph.outline (g : Graph) : Json :=
  let shown (e : Edge) (x : Option String) : Option String := if e.dep.edge == .data then x else none
  .obj [
    ("nodes", encode (g.nodes.entries.map fun (k, n) => (k, n.id, n.kind.number))),
    ("edges", encode (Unordered.mk (g.edges.map fun e =>
      (e.source, e.target, e.dep.edge.name, shown e e.dep.var, shown e (e.dep.kind.map (·.name))))))]

end ParallelPatterns
