import ParallelPatterns.Directive.PatternRecord
import ParallelPatterns.Directive.SourceBuffer
import ParallelPatterns.Files
import ParallelPatterns.Json.Reader

/-!
# Sources with the directives of patterns

The directives of stored patterns are inserted into the files that the patterns lie in. When the
check of a source rejects a directive, it is inserted as a comment, which is checked in the same
way.
-/

namespace ParallelPatterns

/-- What the compiler answers to its runs, which are counted: is the source of the file at a path
accepted? -/
abbrev SourceCheck := Nat → (path source : String) → Result Bool

namespace PatternRecord

def ofText (type text : String) : Result PatternRecord :=
  match Json.parse? text with
  | some j => ofJson type j
  | none => .error .malformedObject

def ofTexts (texts : Table String (List String)) : Result (List PatternRecord) := do
  return (← texts.entries.mapM fun (type, ts) => ts.mapM (ofText type)).flatten

end PatternRecord

/-- The sources that directives are inserted into. -/
structure Generation where
  buffers : Table Int SourceBuffer := ∅
  checks : Nat := 0
  deriving Inhabited

namespace Generation

def insertInto (check : Option SourceCheck) (path : String) (d : Directive) (s : Generation)
    (b : SourceBuffer) : Result (SourceBuffer × Generation) := do
  let run (n : Nat) : Option (String → Result Bool) := check.map fun c => c n path
  let (r, b) := (Editing.insert (run s.checks) false [] d).run.run b
  if (← r).isKept then return (b, { s with checks := s.checks + 1 })
  let (r, b) := (Editing.insert (run (s.checks + 1)) true [] d).run.run b
  let _ ← r
  return (b, { s with checks := s.checks + 2 })

def addPattern (files : Files) (paths : Table Int String) (check : Option SourceCheck)
    (s : Generation) (p : PatternRecord) : Result Generation := do
  let path ← (paths.get? p.file).getDM (throw .unknownKey)
  let buffer ← match s.buffers.get? p.file with
    | some b => pure b
    | none => pure (SourceBuffer.ofText p.file (← files.read path))
  let (buffer, s) ← (← p.directives).foldlM (fun (b, s) d => insertInto check path d s b) (buffer, s)
  return { s with buffers := s.buffers.insert p.file buffer }

end Generation

def generateSources (files : Files) (paths : Table Int String) (check : Option SourceCheck)
    (texts : Table String (List String)) : Result (Table Int String) := do
  let patterns ← PatternRecord.ofTexts texts
  let s ← patterns.foldlM (Generation.addPattern files paths check) {}
  return s.buffers.map fun _ b => b.close.text

def generateFromPatterns (files : Files) (paths : Table Int String) (check : Option SourceCheck)
    (patterns : Table String (List String)) : Result (Table Int String) :=
  let stored := patterns.entries.filterMap fun (type, texts) =>
    texts.getLast?.map fun t => (type, t.toList.map String.singleton)
  generateSources files paths check (.ofList stored)

end ParallelPatterns
