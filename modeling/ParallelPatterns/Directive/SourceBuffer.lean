import ParallelPatterns.Directive.Basic
import ParallelPatterns.Failure

/-!
# A source with inserted lines

The lines of a source keep their numbers while further lines are inserted between them. A directive
with children opens a region: its own line owns the region, and the lines that it covers belong to
it, as do the lines of its children. An insertion can be checked, and is undone as a whole when the
check rejects it.
-/

namespace ParallelPatterns

structure SourceLine where
  number : Option Int := none
  content : String
  owned : Option Int := none
  regions : List Int := []
  parent : Int
  deriving DecidableEq, Repr, Inhabited

structure SourceBuffer where
  file : Int
  lines : List SourceLine
  length : Int
  nextRegion : Int := 0
  deriving DecidableEq, Repr, Inhabited

abbrev Editing := ExceptT Failure (StateM SourceBuffer)

namespace SourceLine

def join (regions : List Int) (l : SourceLine) : SourceLine :=
  { l with regions := l.regions ++ regions.filter fun r => !l.regions.contains r }

def closed (l : SourceLine) : SourceLine :=
  if Text.ends "\n" l.content then l else { l with content := l.content ++ "\n" }

end SourceLine

namespace SourceBuffer

/-- Puts a line before or behind the first one with a number; without such a line nothing
changes. -/
def insertBeside {α : Type} (number : α → Option Int) (isBefore : Bool) (n : Int) (new : α) : List α → List α
  | [] => []
  | l :: ls =>
    if number l == some n then (if isBefore then [new, l] else [l, new]) ++ ls
    else l :: insertBeside number isBefore n new ls

def ofText (file : Int) (text : String) : SourceBuffer :=
  let texts := Text.feedLines text
  { file
    lines := texts.zipIdx.map fun (content, i) => { number := some (i + 1), content, parent := i + 1 }
    length := texts.length }

def close (b : SourceBuffer) : SourceBuffer := { b with lines := b.lines.map (·.closed) }

def text (b : SourceBuffer) : String := String.join (b.lines.map (·.content))

def mark (first last : Int) (regions : List Int) (b : SourceBuffer) : SourceBuffer :=
  { b with
    lines := b.lines.map fun l => if l.number.any fun n => first ≤ n && n ≤ last then l.join regions else l }

/-- Before which line a directive is put, or behind which. -/
def side (first last : Int) : DirectivePosition → Result (Bool × Int)
  | .beforeStart => .ok (true, first)
  | .afterStart => .ok (false, first)
  | .beforeEnd => .ok (true, last)
  | .afterEnd => .ok (false, last)
  | .unsupported literal => .error (.unsupportedDirectivePosition literal)

def place (position : DirectivePosition) (first last : Int) (new : SourceLine) (b : SourceBuffer) :
    Result SourceBuffer := do
  let (isBefore, n) ← side first last position
  return { b with lines := insertBeside (·.number) isBefore n new b.lines }

end SourceBuffer

namespace Directive

def coveredFrom (position : DirectivePosition) (first : Int) : Int :=
  if position == .beforeStart then first else first + 1

def lines (first last file : Option Int) : Result (Int × Int × Int) :=
  match first, last with
  | some first, some last =>
    match file with
    | some file => .ok (first, last, file)
    | none => .error (.unsupportedFile "None")
  | _, _ =>
    let literal (n : Option Int) := (n.map toString).getD "None"
    .error (.unsupportedLines (literal first) (literal last))

def commentStart : String := "//<DiscoPoP-IGNORED> "

end Directive

namespace Editing

def newRegion : Editing Int := do
  let b ← get
  set { b with nextRegion := b.nextRegion + 1 }
  return b.nextRegion

def addLine (asComment : Bool) (parents : List Int) (text : String) (first last : Int)
    (position : DirectivePosition) (opensRegion : Bool) : Editing (List Int) := do
  let owned ← if opensRegion then some <$> newRegion else pure none
  let regions := parents ++ owned.toList
  let content := (if asComment then Directive.commentStart else "") ++ text
  let b ← (← get).place position first last { content, owned, regions, parent := first }
  set (b.mark (Directive.coveredFrom position first) last regions)
  return regions

mutual

def add (asComment : Bool) (parents : List Int) : Directive → Editing Unit
  | { text, file, first, last, position, children } => do
    let (first, last, file) ← Directive.lines first last file
    if file != (← get).file then return
    let regions ← addLine asComment parents text first last position (!children.isEmpty)
    addAll asComment regions children

def addAll (asComment : Bool) (parents : List Int) : List Directive → Editing Unit
  | [] => return
  | d :: ds => do
    add asComment parents d
    addAll asComment parents ds

end

def source : Editing String := do
  let b := (← get).close
  set b
  return b.text

end Editing

/-- What became of an insertion: it stays, or it is undone, with the buffer as it was tried. -/
inductive Insertion where
  | kept
  | undone (tried : SourceBuffer)
  deriving DecidableEq, Repr, Inhabited

def Insertion.isKept : Insertion → Bool
  | .kept => true
  | .undone _ => false

namespace Editing

def insert (check : Option (String → Result Bool)) (asComment : Bool) (parents : List Int)
    (d : Directive) : Editing Insertion := do
  let backup ← get
  add asComment parents d
  let (_, _, file) ← Directive.lines d.first d.last d.file
  match check with
  | none => return .kept
  | some check =>
    if file != backup.file then return .kept
    if ← check (← source) then return .kept
    let tried ← get
    set backup
    return .undone tried

end Editing

end ParallelPatterns
