import ParallelPatterns.Alias.Statement
import ParallelPatterns.Files
import ParallelPatterns.Input.UnitFile

/-!
# Aliases of the arguments of functions

An outer program lists the statements of every source file. For each function of a program, the
statements of its body are searched for names that its arguments are assigned to, and for names that
those are assigned to in a later line.
-/

namespace ParallelPatterns

open Text

/-- A function with its place and its arguments. -/
structure FunctionOutline where
  id : Option String
  name : Option String
  first : Option String
  last : Option String
  args : List (Option String)
  types : List (Option String)
  deriving Inhabited

namespace FunctionOutline

def ofElement (m : Markup) : FunctionOutline :=
  let args := ((m.child? "funcArguments").map (·.childrenOf "arg")).getD []
  { id := m.attribute? "id", name := m.attribute? "name", first := m.attribute? "startsAtLine"
    last := m.attribute? "endsAtLine", args := args.map (·.text?), types := args.map (·.attribute? "type") }

def ofUnitFile (text : String) : Result (List FunctionOutline) := do
  let nodes := (← Markup.parse (UnitFile.document text)).childrenOf "Node"
  if nodes.isEmpty || nodes.any (fun m => !m.hasChild "childrenNodes") then throw .missingProperty
  return (nodes.filter fun m => m.attribute? "type" == some "1").map ofElement

def partOf (position : Option String) (i : Nat) : Result String := do
  let s ← position.getDM (.error .missingProperty)
  (split ":" s)[i]?.getDM (.error .outOfRange)

end FunctionOutline

namespace Alias

structure NumberedStatement where
  text : String
  line : Int

def splitStatement (s : String) : Result (String × String) :=
  match split ":" s with
  | file :: line :: _ :: _ => .ok (file, line)
  | _ => .error .absentText

def statementIn (file first last line : String) : Result (Option NumberedStatement) := do
  let (lineFile, number) ← splitStatement line
  if file ≠ lineFile then return none
  let n ← ParallelPatterns.number number
  if (← ParallelPatterns.number first) > n then return none
  if (← ParallelPatterns.number last) < n then return none
  return some ⟨replace "\n" "" line, n⟩

def statementsOf (f : FunctionOutline) (lines : List String) : Result (List NumberedStatement) := do
  let file ← f.id.elim (.error .missingProperty) fun id => .ok (cut ":" id).1
  let first ← FunctionOutline.partOf f.first 1
  let last ← FunctionOutline.partOf f.last 1
  let found ← lines.mapM (statementIn file first last)
  return (found.filterMap id).mergeSort fun a b => a.line ≤ b.line

variable (statements : List NumberedStatement)

def laterAliases (line : Int) (name : String) :
    Result (List String) := do
  let found ← (statements.filter fun s => line ≤ s.line).mapM fun s => ofStatement name (some "*") s.text
  return (found.filterMap id).flatten

def ofArgument (name type : Option String) : Result (List String) := do
  let found ← statements.mapM fun s => do
    match ← ofStatement (← name.getDM (throw .wrongSort)) type s.text with
    | none => return []
    | some names => return (← names.mapM (laterAliases statements s.line)).flatten ++ names
  return distinct found.flatten

def typedArguments (f : FunctionOutline) (hasStatements : Bool) :
    Result (List (Option String × Option String)) :=
  f.args.zipIdx.mapM fun (name, i) =>
    match f.types[i]? with
    | some t => .ok (name, t)
    | none => if hasStatements then .error .outOfRange else .ok (name, none)

def ofFunction (lines : List String) (f : FunctionOutline) : Result (List (List String)) := do
  let statements ← statementsOf f lines
  (← typedArguments f !statements.isEmpty).mapM fun (name, type) => ofArgument statements name type

/-- Removes what stands between angle brackets: from the first opening to the last closing one. -/
def withoutAngles (s : String) : String :=
  match find? "<" s, findLast? ">" s with
  | some i, some j => if i < j then take i s ++ drop (j + 1) s else s
  | _, _ => s

def tightColonsGo : Nat → String → String
  | 0, s => s
  | fuel + 1, s =>
    if has " :" s || has ": " s then
      tightColonsGo fuel (replace ": " ":" (replace " :" ":" s))
    else s

/-- The line of a listing with the number of its file in the place of the path, if it holds an
assignment. A line without a colon is cut before its last character. -/
def listedStatement? (ids : Table String String) (line : String) : Result (Option String) := do
  let line := replace "\n" "" line
  if line.isEmpty then return none
  let i := (findLast? ":" line).getD (line.length - 1)
  let left := withoutAngles (take i line)
  let path := take ((find? ":" left).getD (left.length - 1)) left
  let id ← (ids.get? path).getDM (throw .unknownKey)
  let left := if path.isEmpty then left else replace path id left
  let line := left ++ drop i line
  let line := tightColonsGo line.length line
  return if has "=" line then some (line ++ "\n") else none

def fileIds (mapping : String) : Result (Table String String) :=
  (feedLines mapping).foldlM (fun t line =>
    match split "\t" (replace "\n" "" line) with
    | id :: path :: _ => .ok (t.insert path id)
    | _ => .error .outOfRange) ∅

def reportOf (fs : List FunctionOutline) (aliases : List (List (List String))) :
    Result (List (String × String × String)) := do
  let entries ← (fs.zip aliases).mapM fun (f, lists) =>
    (f.args.zip lists).mapM fun (arg, names) => names.mapM fun name =>
      match f.id, f.name, arg with
      | some id, some function, some arg =>
        match split ";" (";".intercalate [id, function, arg, name]) with
        | _ :: function :: arg :: name :: _ => .ok (function, arg, name)
        | _ => .error .outOfRange
      | _, _, _ => .error .wrongSort
  return entries.flatten.flatten

/-- The aliases of the arguments of every function, by the name of the function. `statements` is
what the listing program prints for a source file. -/
def ofProgram (files : Files) (mappingPath unitPath : String) (statements : String → String) :
    Result (Table String (List (String × String))) := do
  for path in [mappingPath, unitPath] do
    if !files.isFile path then throw (.fileNotFound (Files.absolute path))
  let ids ← fileIds (← files.read mappingPath)
  let listing := plainLineEnds (String.join (ids.keys.map statements))
  let lines := ((← (feedLines listing).mapM (listedStatement? ids)).filterMap id)
  let fs ← FunctionOutline.ofUnitFile (← files.read unitPath)
  let report ← reportOf fs (← fs.mapM (ofFunction lines))
  return (report.filter fun (_, arg, name) => arg ≠ name).foldl (fun t (function, arg, name) =>
    t.update function [] (· ++ [(arg, name)])) ∅

end Alias

end ParallelPatterns
