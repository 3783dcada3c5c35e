import ParallelPatterns.Files
import ParallelPatterns.Text.Integer

/-!
# The file mapping

Every line of the file mapping gives a file its number: the number, a tab, and the path.
-/

namespace ParallelPatterns.FileMapping

def plainPath (path : String) : String :=
  let parts := (Text.split "/" path).filter fun p => p ≠ "" && p ≠ "."
  let body := "/".intercalate parts
  if Text.begins "//" path && !Text.begins "///" path then "//" ++ body
  else if Text.begins "/" path then "/" ++ body
  else if body == "" then "."
  else body

def addLine (t : Table Int String) (line : String) : Result (Table Int String) := do
  let fields := Text.split "\t" (Text.replace "\n" "" line)
  let id ← match fields with
    | f :: _ => (Text.integer? f).getDM (.error .notANumber)
    | [] => .error .outOfRange
  match fields[1]? with
  | some path => return t.insert id (plainPath path)
  | none => .error .outOfRange

/-- The paths by file number; the last line of a number counts. -/
def parse (text : String) : Result (Table Int String) := (Text.feedLines text).foldlM addLine ∅

def load (files : Files) (path : String) : Result (Table Int String) := do
  if !files.present path then .error (.noFileMapping path)
  else parse (← files.read path)

def pathOfLine (lines : List String) (mapping : String) (id : Int) : Result String := do
  if !(0 < id && id ≤ lines.length) then .error .invalidFileId
  else
    match Text.split "\t" ((lines[(id - 1).toNat]?).getD "") with
    | _ :: path :: _ =>
      if Text.begins ".." path then return Files.directoryOf mapping ++ "/" ++ path else return path
    | _ => .error .outOfRange

end ParallelPatterns.FileMapping
