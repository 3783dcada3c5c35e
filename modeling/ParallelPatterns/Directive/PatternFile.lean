import ParallelPatterns.Files
import ParallelPatterns.Json.Access
import ParallelPatterns.Json.Reader

/-!
# The file of found patterns

The file holds an object with the patterns by type. Reading gives each pattern's own text again, for
all types or for chosen ones.
-/

namespace ParallelPatterns.PatternFile

/-- The item of a list at a place; places below zero count from the end. -/
def itemAt (xs : List Json) (i : Int) : Result Json :=
  let i := if i < 0 then i + xs.length else i
  if i < 0 then .error .outOfRange
  else xs[i.toNat]?.getDM (.error .outOfRange)

def storedAt (data key : Json) : Result Json :=
  match data, key with
  | .obj _, .str k => data.member k
  | .arr xs, .int i => itemAt xs i
  | .arr xs, .bool b => itemAt xs (if b then 1 else 0)
  | _, _ => .error .wrongSort

def addType (data : Json) (t : Table String (List String)) (key : Json) : Result (Table String (List String)) := do
  let stored ← storedAt data key
  return t.insert (key.text?.getD key.literal) ((← stored.entries).map Json.compact)

def parse (types : List String) (text : String) : Result (Table String (List String)) := do
  let data ← (Json.parse? text).getDM (throw .malformedJson)
  let keys := (← data.entries).filter fun k => types.isEmpty || k.text?.any types.contains
  keys.foldlM (addType data) ∅

def load (files : Files) (path : String) (types : List String) : Result (Table String (List String)) := do
  if !files.present path then throw (.noPatternFile path)
  parse types (← files.read path)

end ParallelPatterns.PatternFile
