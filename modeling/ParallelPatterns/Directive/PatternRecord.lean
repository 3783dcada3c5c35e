import ParallelPatterns.Directive.Basic
import ParallelPatterns.Json.Access
import ParallelPatterns.Table

/-!
# From stored patterns to directives

A stored pattern is a record with the lines of the pattern and the attributes of its type. Loops
without dependences and reductions give one directive; a pipeline gives one for each stage; a region
for an accelerator gives one for each loop, with the constructs as its children, and a combined
region also those that move data.
-/

namespace ParallelPatterns

structure PatternRecord where
  type : String
  values : Json
  file : Int
  first : Int
  last : Int

namespace PatternRecord

def ofJson (type : String) (values : Json) : Result PatternRecord := do
  let start ← values.member "start_line"
  let file ← start.fileNumber
  let first ← start.lineNumber
  return { type, values, file, first, last := ← (← values.member "end_line").lineNumber }

variable (values : Json)

/-- What is read from each entry under a key. -/
def listed {α : Type} (key : String) (read : Json → Result α) : Result (List α) := do
  (← (← values.member key).entries).mapM read

def require (keys : List String) : Result Unit := do
  for key in keys do
    let _ ← values.member key

def clause (key before : String) : Result String := do
  let names ← values.member key
  if (← names.entries).isEmpty then return ""
  return before ++ (← names.joined ",") ++ ") "

def reductionsOf : Result (Table String (List String)) := do
  (← (← values.member "reduction").entries).foldlM (fun t entry => do
    let op ← entry.part 0
    return t.update op [] (· ++ [← entry.part 1])) ∅

def reductionClauses : Result String := do
  return String.join ((← reductionsOf values).entries.map fun (op, names) =>
    "reduction(" ++ op ++ ":" ++ ",".intercalate names ++ ") ")

/-- The clauses of some classes of variables: the key of each in the record, and the start of its
clause. -/
def clauses (classes : List (String × String)) : Result String :=
  String.join <$> classes.mapM fun c => clause values c.1 c.2

/-- The classes of variables of a loop: their keys in its record, and their keywords. -/
def loopClasses : List (String × String) :=
  [("first_private", "firstprivate"), ("private", "private"), ("last_private", "lastprivate"), ("shared", "shared")]

def loopClauses : Result String := do
  return (← clauses values (loopClasses.map fun c => (c.1, c.2 ++ "("))) ++ (← reductionClauses values)

def stageClasses : List (String × String) :=
  [("first_private", "firstprivate("), ("private", "private("), ("shared", "shared(")]

def stageDependences : List (String × String) :=
  [("in_deps", "depends(in:"), ("out_deps", "depends(out:"), ("in_out_deps", "depends(inout:")]

variable (p : PatternRecord)

def loopDirective : Result Directive := do
  return {
    text := "#pragma omp parallel for " ++ (← loopClauses p.values)
    file := some p.file, first := some p.first, last := some p.last }

def stageDirective (stage : Json) : Result Directive := do
  let first ← (← stage.member "startsAtLine").lineNumber
  let last ← (← stage.member "endsAtLine").lineNumber
  let text := "#pragma omp task " ++ (← clauses stage stageClasses) ++ (← reductionClauses stage) ++
    (← clauses stage stageDependences)
  return { text, file := some p.file, first := some first, last := some last }

/-- What a number stands for; other values are refused. -/
def meaning {α : Type} (meanings : List (Int × α)) (refuse : String → Failure) (value : Json) : Result α :=
  ((meanings.find? fun m => value.isNumber m.1).map (·.2)).getDM (.error (refuse value.literal))

def constructPosition : Json → Result DirectivePosition :=
  meaning [(0, .beforeStart), (1, .afterStart)] .unsupportedPosition

/-- The lines that a construct on a line stands for: the whole loop if it stands at its start, the
rest of it if it stands inside. -/
def constructLines (line first last : Int) : Int × Int :=
  if line == first then (first, last)
  else if first ≤ line && line ≤ last then (line, last)
  else (line, line)

def constructClause (withMaps : Bool) (clause : Json) : Result String :=
  match clause.text? with
  | none => .error (if withMaps then .wrongSort else .missingProperty)
  | some s => .ok (if !withMaps && Text.begins "map(" s then "" else s ++ " ")

def constructPlace (loop place : Json) (isPlaced : Bool) : Result Json :=
  if isPlaced then .ok place else loop.member "start_line"

/-- The directive of a construct of a loop. A construct without a position stands at the start of
the loop and is marked. -/
def constructDirective (loop construct : Json) (first last : Int) (withMaps : Bool) : Result Directive := do
  let place ← construct.member "line"
  let isPlaced ← place.holdsColon
  let line ← (← constructPlace loop place isPlaced).lineNumber
  let name := (← (← construct.member "name").text) ++ " "
  let collapse ← loop.member "collapse"
  let collapsed := if ← collapse.exceedsOne then "collapse(" ++ collapse.literal ++ ") " else ""
  let clauses ← listed construct "clauses" (constructClause withMaps)
  let position ← constructPosition (← construct.member "positioning")
  let (first, last) := constructLines line first last
  return {
    text := (if isPlaced then "" else "// INVALID - MISSING POSITION:: ") ++ name ++ collapsed ++
      String.join clauses
    file := some p.file, first := some first, last := some last, position }

def acceleratedLoop (withMaps : Bool) (loop : Json) : Result Directive := do
  let start ← loop.member "start_line"
  let first ← start.lineNumber
  let last ← (← loop.member "end_line").lineNumber
  let file ← start.fileNumber
  return {
    file := some file, first := some first, last := some last
    children := ← listed loop "constructs" fun c => p.constructDirective loop c first last withMaps }

def regionAttributes : List String :=
  ["map_to_vars", "map_from_vars", "map_to_from_vars", "map_alloc_vars", "map_delete_vars",
    "consumed_vars", "produced_vars"]

def regionDirectives (region : Json) (withMaps : Bool) : Result (List Directive) := do
  let start ← region.member "start_line"
  let finish ← region.member "end_line"
  require region ("contained_loops" :: regionAttributes)
  let _ ← start.lineNumber
  let _ ← finish.lineNumber
  listed region "contained_loops" (p.acceleratedLoop withMaps)

def lineDirective (text : String) (line : Json) (position : Result DirectivePosition) : Result Directive := do
  let n ← line.lineNumber
  return { text, file := some p.file, first := some n, last := some n, position := ← position }

/-- The directive of an entry with so many components, of which one is its line. -/
def entryDirective (count place : Nat) (text : List Json → Result String)
    (position : List Json → Result DirectivePosition) (entry : Json) : Result Directive := do
  let components ← entry.tuple count
  p.lineDirective (← text components) (components.getD place .null) (position components)

def unitsRemark (source sink : Json) : Result String := do
  return " // @CU " ++ (← source.text) ++ " -> " ++ (← sink.text) ++ " "

def updateText : List Json → Result String
  | [source, sink, kind, var, _] => do
    let word ← meaning [(0, "to("), (1, "from("), (3, "alloc(")] .unsupportedUpdate kind
    return "#pragma omp target update " ++ word ++ (← var.text) ++ ") " ++ (← unitsRemark source sink)
  | _ => throw .wrongLength

def dependText (word : String) : List Json → Result String
  | [var, unit, _] => do return "#depend " ++ word ++ "(" ++ (← var.text) ++ ") @ " ++ (← unit.text) ++ " "
  | _ => throw .wrongLength

def pointText (start : String) (word : Json → Result String) : List Json → Result String
  | [var, source, sink, kind, _, _] => do
    return start ++ (← word kind) ++ (← var.text) ++ ") " ++ (← unitsRemark source sink)
  | _ => throw .wrongLength

def entryWord : Json → Result String :=
  meaning [(0, "map(to: "), (1, "map(alloc: "), (2, "nowait map(to: "),
    (3, "nowait map(alloc:")] .unsupportedEntryKind

def exitWord : Json → Result String :=
  meaning [(0, "map(from: "), (1, "map(delete: "), (2, "nowait map(from: ")] .unsupportedExitKind

def pointPosition (components : List Json) : Result DirectivePosition :=
  meaning [(0, .beforeStart), (1, .afterEnd)] .unsupportedPointPosition (components.getD 5 .null)

def combinedDirectives : Result (List Directive) := do
  let point start word := p.entryDirective 6 4 (pointText start word) pointPosition
  let depend word := p.entryDirective 3 2 (dependText word) fun _ => return .beforeStart
  require p.values ["data_region_entry_points", "data_region_exit_points"]
  let entries ← listed p.values "data_region_entry_points" (point "#pragma omp target enter data " entryWord)
  let exits ← listed p.values "data_region_exit_points" (point "#pragma omp target exit data " exitWord)
  require p.values ["data_region_depend_in", "data_region_depend_out"]
  let ins ← listed p.values "data_region_depend_in" (depend "in")
  let outs ← listed p.values "data_region_depend_out" (depend "out")
  let updates ← listed p.values "update_instructions" (p.entryDirective 5 4 updateText fun _ => return .beforeStart)
  let regions ← listed p.values "contained_regions" fun r => p.regionDirectives r false
  return entries ++ exits ++ ins ++ outs ++ updates ++ regions.flatten

def directives : Result (List Directive) := do
  match p.type with
  | "do_all" => return [← p.loopDirective]
  | "reduction" => return [← p.loopDirective]
  | "pipeline" => listed p.values "stages" p.stageDirective
  | "simple_gpu" => p.regionDirectives p.values true
  | "combined_gpu" => p.combinedDirectives
  | other => return [{
      text := "#CURRENTLY UNSUPPORTED PREVIEW FOR TYPE: " ++ other, file := some p.file, first := some p.first
      last := some p.last }]

end PatternRecord

end ParallelPatterns
