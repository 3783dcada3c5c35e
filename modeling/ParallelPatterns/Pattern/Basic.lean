import ParallelPatterns.Dataflow.LoopVariables
import ParallelPatterns.Dataflow.Workload
import ParallelPatterns.Json.Writer

/-!
# Detected patterns

What all patterns have in common: the node where a pattern was found, the lines it covers, how often
it ran, and its workload. A pattern is reported as a list of named attributes; a `PatternEncoding`
says how variables, nodes and nested parts appear in a report.
-/

namespace ParallelPatterns

structure PatternSite where
  node : NodeId
  startLine : LineId
  endLine : LineId
  averageIterations : Int
  iterations : Int
  entries : Int
  workload : Option Int := none
  deriving Inhabited

namespace PatternSite

def ofNode (n : Node) : PatternSite :=
  let count := n.loop?.bind (·.count)
  { node := n.id, startLine := n.start, endLine := n.finish
    averageIterations := (count.map (·.average)).getD (-1)
    iterations := (count.map (·.total)).getD (-1)
    entries := (count.map (·.entries)).getD (-1) }

/-- The site of some sites together: its node is the one with the least identifier. -/
def around (g : Graph) (sites : List PatternSite) : Result PatternSite := do
  let sorted (f : PatternSite → String) : List String := (sites.map f).mergeSort fun a b => a ≤ b
  match sorted (·.node), sorted (·.startLine), (sorted (·.endLine)).getLast? with
  | id :: _, startLine :: _, some endLine => return { ofNode (← g.node id) with startLine, endLine }
  | _, _, _ => throw .outOfRange

def withWorkload (s : PatternSite) : Analysis PatternSite := do
  match s.workload with
  | some _ => return s
  | none => return { s with workload := some (← ParallelPatterns.workload s.node) }

end PatternSite

/-- How the parts of a pattern appear in a report. -/
structure PatternEncoding where
  var : Variable → Json
  node : NodeId → Json
  part : List (String × Json) → Json

namespace PatternEncoding

def variableText (g : Graph) (v : Variable) : Json :=
  match g.operator? v with
  | some op => if op == "" then .optionStr v.name else .str (op ++ ":" ++ v.name.getD "None")
  | none => .optionStr v.name

/-- Variables by name and operator, nodes by identifier, parts as objects. -/
def full (g : Graph) : PatternEncoding where
  var := variableText g
  node := .str
  part := .obj

/-- A mark in the place of everything that is no plain value. -/
def outline : PatternEncoding where
  var _ := .str "<not serializable>"
  node _ := .str "<not serializable>"
  part _ := .str "<not serializable>"

def vars (e : PatternEncoding) (vs : List Variable) : Json := .arr (vs.map e.var)

end PatternEncoding

def Json.optionInt : Option Int → Json
  | some n => .int n
  | none => .null

def Json.ofMeasure : Measure → Json
  | .whole n => .int n
  | .real x => .real x

def PatternSite.attributes (s : PatternSite) : List (String × Json) :=
  [("node_id", .str s.node), ("start_line", .str s.startLine), ("end_line", .str s.endLine),
    ("average_iteration_count", .int s.averageIterations), ("iterations_count", .int s.iterations),
    ("entries", .int s.entries), ("workload", .optionInt s.workload)]

def LoopVariables.attributes (c : LoopVariables) (e : PatternEncoding) : List (String × Json) :=
  [("first_private", e.vars c.firstPrivate), ("private", e.vars c.privates),
    ("last_private", e.vars c.lastPrivate), ("shared", e.vars c.shared),
    ("reduction", e.vars c.reduction)]

def namesLiteral (vs : List Variable) : String :=
  Text.listLiteral (vs.map fun v => Text.optionLiteral v.name)

def PatternSite.fields (s : PatternSite) (title : String) : List (String × String) :=
  [(title ++ " at", s.node), ("Start line", s.startLine), ("End line", s.endLine)]

def LoopVariables.fields (c : LoopVariables) (reduction : String) : List (String × String) :=
  [("private", namesLiteral c.privates), ("shared", namesLiteral c.shared),
    ("first private", namesLiteral c.firstPrivate), ("reduction", reduction),
    ("last private", namesLiteral c.lastPrivate)]

def outlineText (attributes : List (String × Json)) : String := (Json.obj attributes).indented 2

end ParallelPatterns
