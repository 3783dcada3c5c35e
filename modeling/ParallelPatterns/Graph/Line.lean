import ParallelPatterns.Failure
import ParallelPatterns.Text.Integer

/-!
# Identifiers of nodes and lines

A node and a source line are both named by a file number and a number inside the file, written
`file:number`. The written form is the identity; the pair of numbers is what it denotes.
-/

namespace ParallelPatterns

abbrev NodeId := String

/-- The written form of a source line's identifier. -/
abbrev LineId := String

abbrev Region := String

variable (s : String)

def number : Result Int :=
  match Text.integer? s with
  | some n => .ok n
  | none => .error .notANumber

/-- The file number and the number inside the file that an identifier denotes; further parts behind
a second colon do not matter. -/
def parseId : Result (Int × Int) :=
  match Text.split ":" s with
  | a :: b :: _ => do
    let file ← number a
    let n ← number b
    return (file, n)
  | [a] => do
    let _ ← number a
    .error .outOfRange
  | [] => .error .outOfRange

def isPositionText : Bool :=
  match Text.split ":" s with
  | [a, b] => (Text.integer? a).isSome && (Text.integer? b).isSome
  | _ => false

def nodeId : Result NodeId :=
  if isPositionText s then .ok s else .error (.malformedNodeId s)

def lineId : Result LineId :=
  if isPositionText s then .ok s else .error (.malformedLineId s)

def position (file line : Int) : LineId := toString file ++ ":" ++ toString line

def lineWithin (file first last : Int) (line : String) : Result Bool := do
  if line == "GlobalVar" then return false
  let (otherFile, other) ← parseId line
  return otherFile == file && first ≤ other && other ≤ last

def lineInRegion (line first last : LineId) : Result Bool := do
  let (file, number) ← parseId line
  let (firstFile, firstNumber) ← parseId first
  let (lastFile, lastNumber) ← parseId last
  return file == firstFile && firstFile == lastFile && firstNumber ≤ number && number ≤ lastNumber

def linesBetween (first last : LineId) : Result (List LineId) := do
  let file := (Text.split ":" first).headD ""
  if file != (Text.split ":" last).headD "" then .error (.filesDiffer first last)
  else
    let line (s : String) : Result Int :=
      match Text.split ":" s with
      | _ :: n :: _ => number n
      | _ => .error .outOfRange
    let a ← line first
    let b ← line last
    return (List.range (b + 1 - a).toNat).map fun (i : Nat) => file ++ ":" ++ toString (a + i)

end ParallelPatterns
