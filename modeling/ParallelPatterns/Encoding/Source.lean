import ParallelPatterns.Alias.Function
import ParallelPatterns.Input.CallDependences
import ParallelPatterns.Json.Encode
import ParallelPatterns.Task.SplitUnits

/-!
# The JSON form of what is read off sources and descriptions
-/

namespace ParallelPatterns

instance : Encode FunctionOutline where
  encode f := .obj [
    ("arg_types", encode f.types), ("args", encode f.args), ("endsAtLine", encode f.last),
    ("id", encode f.id), ("name", encode f.name), ("startsAtLine", encode f.first)]

instance : Decode FunctionOutline where
  decode j := {
    id := decode (j.field "id"), name := decode (j.field "name"), first := decode (j.field "startsAtLine")
    last := decode (j.field "endsAtLine"), args := decode (j.field "args"), types := decode (j.field "arg_types") }

instance : Encode CallDependence where
  encode d := .obj [("function", encode d.function), ("line", .str d.line), ("var", .str d.var)]

instance : Encode CallDependences where
  encode c := .obj [("RAW", encode c.flow), ("WAR", encode c.anti), ("WAW", encode c.output)]

instance : Encode PhaseLines := ⟨fun p => encode (p.count, p.lines)⟩

instance : Encode Markup where
  encode m :=
    let called := (m.childrenOf "callsNode").flatMap (·.elements)
    .obj [
      ("id", encode (m.attribute? "id")), ("type", encode (m.attribute? "type")),
      ("start", encode (m.attribute? "startsAtLine")), ("end", encode (m.attribute? "endsAtLine")),
      ("children", encode ((m.child? "childrenNodes").map fun c => Text.trim (c.text?.getD ""))),
      ("succ", encode ((m.childrenOf "successors").flatMap fun s => (s.childrenOf "CU").map (·.text?))),
      ("ret", encode ((m.child? "returnInstructions").map fun r =>
        (r.attribute? "count", r.text?.getD ""))),
      ("calls", encode (called.map fun c => (c.tag, c.attribute? "atLine", c.text?)))]

end ParallelPatterns
