import ParallelPatterns.Graph.Basic
import ParallelPatterns.Input.FileMapping
import ParallelPatterns.Text.Regex

/-!
# The recorded reductions

Every line of the reduction file reports a loop and a statement in it that looks like a reduction. A
report counts if the source of the statement allows it: the statement must not read the very array
element that it writes.
-/

namespace ParallelPatterns.ReductionFile

open Text

/-- The text up to the bracket that closes one that is already open; `depth` brackets are open, and
`acc` holds the text so far in reverse. -/
def enclosedGo : Nat → List Char → List Char → Option (List Char)
  | _, _, [] => none
  | depth, acc, c :: cs =>
    if c = '[' then enclosedGo (depth + 1) (c :: acc) cs
    else if c = ']' then
      if depth == 1 then some acc.reverse else enclosedGo (depth - 1) (c :: acc) cs
    else enclosedGo depth (c :: acc) cs

/-- The text up to the bracket that closes one that is already open. -/
def enclosed (s : String) : Option String := (enclosedGo 1 [] s.toList).map String.ofList

/-- The indices with which an array is accessed in a text. The name is read as a regular expression;
a use without a bracket directly behind it has an empty index, and an unclosed bracket none. -/
def arrayIndices (name text : String) : Result (List (Option String)) := do
  let r ← (Text.Regex.parse? name).getDM (.error .malformedExpression)
  (r.findAll text).mapM fun (_, stop) => do
    let c ← text.toList[stop]?.getDM (.error .outOfRange)
    return if c = '[' then enclosed (drop (stop + 1) text) else some ""

def isNameChar (c : Char) : Bool := c.isAlphanum || c = '_'

/-- The lines from a statement's first line on, joined up to the first that holds a semicolon;
nothing if the source ends before. -/
def statement : String → List String → Option String
  | s, rest =>
    if has ";" s then some s
    else match rest with
      | [] => none
      | l :: ls => statement (s ++ " " ++ l) ls

/-- Does the source allow a reduction on a line? The element written by an assignment must not be
read again behind the equals sign. -/
def possible (line : Int) (source : List String) : Result Bool := do
  if !(0 < line && line ≤ source.length) then .error .invalidSourceLine
  else
    let rest := source.drop (line - 1).toNat
    match statement (rest.headD "") rest.tail with
    | none => return false
    | some text =>
      match find? "=" text with
      | none => return true
      | some pos =>
        let left := take pos text
        match find? "[" left with
        | none => return true
        | some opening =>
          let closing ← (findLast? "]" left).getDM (.error .requirement)
          let name := ((take opening text).toList.reverse.takeWhile isNameChar).reverse
          if name.isEmpty then return true
          let indices ← arrayIndices (String.ofList name) (drop pos text)
          return !indices.contains (some (slice (opening + 1) closing text))

def digitsThen (sep : String) (cs : List Char) : Option (String × List Char) :=
  let ds := cs.takeWhile Char.isDigit
  (after? sep.toList (cs.drop ds.length)).map fun r => (String.ofList ds, r)

def reportHere (cs : List Char) : Option (String × String) := do
  let r ← after? "FileID : ".toList cs
  let (file, r) ← digitsThen " Loop Line Number : " r
  let (_, r) ← digitsThen " Reduction Line Number : " r
  let (line, _) ← digitsThen " " r
  return (file, line)

def report? : List Char → Option (String × String)
  | [] => none
  | c :: cs =>
    match reportHere (c :: cs) with
    | some r => some r
    | none => report? cs

def isReduction (files : Files) (mappingLines : List String) (mapping line : String) : Result Bool := do
  let (file, statementLine) ← (report? line.toList).getDM (.error .missingProperty)
  let file ← number file
  let statementLine ← number statementLine
  let path ← FileMapping.pathOfLine mappingLines mapping file
  let source ← files.read path
  possible statementLine (lines source)

def field (fs : List String) (i : Nat) : Result String :=
  fs[i]?.getDM (.error .outOfRange)

def recordOf (line : String) : Result ReductionRecord := do
  let fs := split " " (replace "\n" "" line)
  let file ← field fs 3
  let loop ← field fs 8
  let name ← field fs 17
  let statementLine ← field fs 13
  let operation ← field fs 21
  return {
    loopLine := file ++ ":" ++ loop, name
    reductionLine := file ++ ":" ++ statementLine, operation }

/-- The reductions that the reports name and the sources allow. -/
def parse (files : Files) (mappingLines : List String) (mapping text : String) :
    Result (List ReductionRecord) :=
  (feedLines text).foldlM (fun rs line => do
    if ← isReduction files mappingLines mapping line then return rs ++ [← recordOf line]
    else return rs) []

end ParallelPatterns.ReductionFile
