import ParallelPatterns.Dataflow.Variables
import ParallelPatterns.Graph.Metadata
import ParallelPatterns.Json.Encode

/-!
# The program graph as JSON

Nodes appear as their identifiers, edges with their dependences, and a description of a node lists
all its properties.
-/

namespace ParallelPatterns

instance : Encode Measure where
  encode
    | .whole n => .int n
    | .real x => encode x

instance : Encode Node := ⟨fun n => .str n.id⟩

instance : Encode Dependence where
  encode d :=
    if d.edge == .data then
      .obj [("e", .str d.edge.name), ("d", encode (d.kind.map (·.name))), ("var", encode d.var),
        ("mem", encode d.region), ("src", encode d.sourceLine), ("snk", encode d.sinkLine),
        ("ii", .bool d.intraIteration), ("lvl", .int d.level)]
    else .obj [("e", .str d.edge.name)]

instance : Decode Dependence where
  decode j :=
    { edge := (EdgeKind.ofName? (decode (j.field "e"))).getD .data
      kind := (j.field "d").text?.bind DependenceKind.ofName?
      var := decode (j.field "var"), region := decode (j.field "mem")
      sourceLine := decode (j.field "src"), sinkLine := decode (j.field "snk") }

instance : Encode Edge := ⟨fun e => .arr [.str e.source, .str e.target, encode e.dep]⟩

instance : Encode (List Edge) := ⟨fun es => encode (Unordered.mk es)⟩

/-- Edges are told apart by their places in the list. -/
instance : Decode (List Edge) where
  decode j := (j.items?.getD []).mapIdx fun i e =>
    { source := decode (e.item 0), target := decode (e.item 1), key := i, dep := decode (e.item 2) }

instance : Encode LoopCount :=
  ⟨fun l => .arr [.str l.line, .int l.total, .int l.entries, .int l.average, .int l.maximum]⟩

instance : Decode Variable where
  decode j :=
    { type := decode (j.item 0), name := decode (j.item 1), defLine := decode (j.item 2)
      mode := if (j.items?.getD []).length > 3 then decode (j.item 3) else some ""
      size := Variable.knownSize (decode (j.item 4)) }

def Variable.describe (operator : Option String) (v : Variable) : Json :=
  .obj [("name", encode v.name), ("type", encode v.type), ("def", encode v.defLine),
    ("op", encode operator), ("mode", encode v.mode), ("size", .int v.size)]

def NodeKind.name : NodeKind → String
  | unit => "CU"
  | loop => "LOOP"
  | function => "FUNC"
  | dummy => "DUMMY"

def NodeKind.number : NodeKind → String
  | unit => "0"
  | function => "1"
  | loop => "2"
  | dummy => "3"

def NodeKind.all : List NodeKind := [.unit, .loop, .function, .dummy]

instance : Decode (List NodeKind) where
  decode j :=
    let named (s : String) : List NodeKind :=
      match NodeKind.all.find? fun k => k.name == s with
      | some k => [k]
      | none => NodeKind.all
    match j with
    | .str s => named s
    | .arr xs => xs.flatMap fun x => named (decode x)
    | _ => NodeKind.all

instance : Decode (List EdgeKind) where
  decode
    | .str s => (EdgeKind.ofName? s).toList
    | .arr xs => xs.filterMap fun x => EdgeKind.ofName? (decode x)
    | _ => EdgeKind.all

namespace Graph

def describeRegions (g : Graph) (t : VariableRegions) : Json :=
  .arr (t.map fun (v, rs) => .arr [v.describe (g.operator? v), encode (Unordered.mk rs)])

def describe (g : Graph) (n : Node) : Json :=
  let vars (vs : List Variable) : Json := .arr (vs.map fun v => v.describe (g.operator? v))
  let common : List (String × Json) := [
    ("id", .str n.id), ("type", .str n.kind.name), ("start", .int n.startLine),
    ("end", .int n.endLine), ("name", encode n.name), ("parent", encode n.parentFunction),
    ("workload", encode n.workload), ("reduction", .bool n.reduction), ("do_all", .bool n.doAll),
    ("gd", .bool n.geometric), ("pipeline", encode n.pipeline),
    ("calls", .arr (n.calls.map fun c => .obj [("cuid", encode c.callee), ("atLine", .str c.line)])),
    ("rec", encode n.recursiveCalls),
    ("tp", .arr [.bool n.containsTask, .bool n.containsTaskwait, .bool n.omittable, .str n.role.name])]
  let own : List (String × Json) :=
    match n.body with
    | .unit b => [("instr", .int b.instructions), ("bb", encode b.block), ("ret", .int b.returns),
        ("local", vars b.locals), ("glob", vars b.globals), ("io", .bool b.fileAccess),
        ("col", encode b.column)]
    | .loop b => [("iter", .int b.iterations), ("arr_red", .bool b.arrayReduction),
        ("loop_data", encode b.count)]
    | .function b => [("args", vars b.args), ("children", encode b.children),
        ("reach", encode (b.reach.map fun _ ids => Unordered.mk ids))]
    | .dummy args => [("args", vars args)]
  .obj (common ++ own)

end Graph

def Node.setProperty (n : Node) (name : String) (value : Json) : Node :=
  match name with
  | "do_all" => { n with doAll := decode value }
  | "reduction" => { n with reduction := decode value }
  | "geometric_decomposition" => { n with geometric := decode value }
  | "tp_contains_task" => { n with containsTask := decode value }
  | "tp_contains_taskwait" => { n with containsTaskwait := decode value }
  | "tp_omittable" => { n with omittable := decode value }
  | "start_line" => { n with startLine := decode value }
  | "end_line" => { n with endLine := decode value }
  | "name" => { n with name := decode value }
  | _ => n

end ParallelPatterns
