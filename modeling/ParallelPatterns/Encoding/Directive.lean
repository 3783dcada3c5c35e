import ParallelPatterns.Directive.CheckCommand
import ParallelPatterns.Directive.Generate
import ParallelPatterns.Json.Encode

/-!
# Directives and sources as JSON

A directive is an object with its children. `EditLog` keeps what became of a source step by step;
lines of the source that are shown at several steps show the regions that they belong to in the end.
-/

namespace ParallelPatterns

namespace Directive

mutual

def toJson : Directive → Json
  | { text, file, first, last, position, children } =>
    .obj [("str", .str text), ("file", encode file), ("start", encode first), ("end", encode last),
      ("pos", .str position.name), ("children", .arr (toJsonAll children))]

def toJsonAll : List Directive → List Json
  | [] => []
  | d :: ds => toJson d :: toJsonAll ds

end

def positionOf (ms : List (String × Json)) : DirectivePosition :=
  match (Json.obj ms).get? "pos" with
  | none => .beforeStart
  | some p => (p.text?.bind fun name => DirectivePosition.named.lookup name).getD (.unsupported p.literal)

mutual

def ofJson : Json → Directive
  | .obj ms =>
    let field (key : String) : Json := (Json.obj ms).field key
    { text := decode (field "str"), file := decode (field "file"), first := decode (field "start")
      last := decode (field "end"), position := positionOf ms, children := childrenOf ms }
  | _ => {}

def childrenOf : List (String × Json) → List Directive
  | [] => []
  | (key, value) :: ms => if key == "children" then ofItems value else childrenOf ms

def ofItems : Json → List Directive
  | .arr xs => ofJsonAll xs
  | _ => []

def ofJsonAll : List Json → List Directive
  | [] => []
  | x :: xs => ofJson x :: ofJsonAll xs

end

end Directive

instance : Encode Directive := ⟨Directive.toJson⟩

instance : Decode Directive := ⟨Directive.ofJson⟩

def PatternRecord.describe (type : String) (values : Json) : Result Json := do
  let p ← PatternRecord.ofJson type values
  return .obj [("file", .int p.file), ("start", .int p.first), ("end", .int p.last),
    ("pragmas", encode (← p.directives))]

def PatternRecord.storedTexts (j : Json) : Table String (List String) :=
  .ofList ((j.members?.getD []).map fun (type, ps) =>
    (type, (ps.items?.getD []).map fun p => p.text?.getD p.compact))

def SourceCheck.ofCommand (files : Files) (command : Option String) : SourceCheck :=
  fun _ => acceptsSource files command

structure EditLog where
  buffer : SourceBuffer
  /-- The buffers whose last insertion was undone; the lines shown up to then are theirs. -/
  replaced : List SourceBuffer := []
  steps : List (Result Json × SourceBuffer × Nat) := []

namespace EditLog

variable (check : Option String → String → Result Bool)

def stepOf (a : Json) : Editing (Json × Option SourceBuffer) := do
  match (decode (a.item 0) : String) with
  | "pragma" =>
    let marks := a.item 3
    let isSkipped : Bool := decode (marks.field "skip_compilation_check")
    let check := if isSkipped then none else some (check (decode (marks.field "compile_check_command")))
    match ← Editing.insert check (decode (marks.field "add_as_comment")) (decode (a.item 2))
      (decode (a.item 1)) with
    | .kept => return (.bool true, none)
    | .undone tried => return (.bool false, some tried)
  | "before" => place true
  | "after" => place false
  | "source" => return (.str (← Editing.source), none)
  | _ => throw .unknownKey
where
  place (isBefore : Bool) : Editing (Json × Option SourceBuffer) := do
    let n : Int := decode (a.item 1)
    let new : SourceLine := { content := decode (a.item 2), parent := n }
    modify fun b => { b with lines := SourceBuffer.insertBeside (·.number) isBefore n new b.lines }
    return (.null, none)

def step (l : EditLog) (a : Json) : EditLog :=
  let (r, buffer) := (stepOf check a).run.run l.buffer
  let replaced := match r with
    | .ok (_, some tried) => l.replaced ++ [tried]
    | _ => l.replaced
  { buffer, replaced, steps := l.steps ++ [(r.map (·.1), buffer, replaced.length)] }

def regionsOf (l : EditLog) (epoch : Nat) (line : SourceLine) : List Int :=
  let final := (l.replaced[epoch]?).getD l.buffer
  match line.number with
  | none => line.regions
  | some n => ((final.lines.find? (·.number == some n)).map (·.regions)).getD line.regions

def answers (l : EditLog) : List (Result Json × List (String × Json)) :=
  l.steps.map fun (r, b, epoch) => (r, [("max", .int b.length), ("next", .int b.nextRegion),
    ("lines", encode (b.lines.map fun line =>
      (line.number, line.content, line.owned, l.regionsOf epoch line, line.parent)))])

def ofSteps (files : Files) (paths : Table Int String) (file : Int) (steps : List Json) : Result EditLog := do
  let path ← (paths.get? file).getDM (throw .unknownKey)
  let check (command : Option String) : String → Result Bool := acceptsSource files command path
  return steps.foldl (step check) { buffer := .ofText file (← files.read path) }

end EditLog

end ParallelPatterns
