import ParallelPatterns.Graph.Line
import ParallelPatterns.Json.Writer

/-!
# Looking into JSON values

A stored record may have any shape. Each function here takes what it needs out of a value and fails
in the way that fits the shape: a missing member, a value of another sort, a text that is no number.
-/

namespace ParallelPatterns.Json

mutual

def literal : Json → String
  | .null => "None"
  | .bool b => Text.boolLiteral b
  | .int n => toString n
  | .real x => Decimal.shortest x
  | .str s => Text.literal s
  | .arr xs => Text.listLiteral (literalItems xs)
  | .obj ms => "\x7b" ++ ", ".intercalate (literalMembers ms) ++ "\x7d"

def literalItems : List Json → List String
  | [] => []
  | x :: xs => literal x :: literalItems xs

def literalMembers : List (String × Json) → List String
  | [] => []
  | (k, v) :: ms => (Text.literal k ++ ": " ++ literal v) :: literalMembers ms

end

def member (j : Json) (key : String) : Result Json :=
  match j with
  | .obj _ =>
    match j.get? key with
    | some v => .ok v
    | none => .error .unknownKey
  | _ => .error .wrongSort

/-- What a loop over a value goes through: items, characters or keys. -/
def entries : Json → Result (List Json)
  | .arr xs => .ok xs
  | .str s => .ok (s.toList.map fun c => .str (String.singleton c))
  | .obj ms => .ok (ms.map fun m => .str m.1)
  | _ => .error .wrongSort

def text : Json → Result String
  | .str s => .ok s
  | _ => .error .wrongSort

def joined (sep : String) (j : Json) : Result String := do
  return sep.intercalate (← (← j.entries).mapM text)

def parts : Json → Result (List String)
  | .str s => .ok (Text.split ":" s)
  | _ => .error .missingProperty

def part (j : Json) (i : Nat) : Result String := do
  match (← j.parts)[i]? with
  | some p => return p
  | none => throw .outOfRange

def fileNumber (j : Json) : Result Int := do number (← j.part 0)

def lineNumber (j : Json) : Result Int := do number (← j.part 1)

/-- Is the value equal to a whole number? Truth values count as zero and one. -/
def isNumber (n : Int) : Json → Bool
  | .int m => m == n
  | .real x => x == Float.ofInt n
  | .bool b => n == (if b then 1 else 0)
  | _ => false

def exceedsOne : Json → Result Bool
  | .int n => .ok (n > 1)
  | .real x => .ok (x > 1)
  | .bool _ => .ok false
  | _ => .error .wrongSort

def holdsColon : Json → Result Bool
  | .str s => .ok (Text.has ":" s)
  | .arr xs => .ok (xs.any fun x => x.text? == some ":")
  | .obj ms => .ok (ms.any fun m => m.1 == ":")
  | _ => .error .wrongSort

def tuple (n : Nat) (j : Json) : Result (List Json) := do
  let xs ← j.entries
  if xs.length == n then return xs else throw .wrongLength

end ParallelPatterns.Json
