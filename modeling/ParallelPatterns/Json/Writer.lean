import ParallelPatterns.Json.Basic
import ParallelPatterns.Decimal.Shortest

/-!
# Writing JSON

Values are written in ASCII: every other character is escaped as one or two 16-bit units. A layout
says what stands between the parts: `compact` keeps a value on one line, `indented` gives every item
a line of its own.
-/

namespace ParallelPatterns.Json

def hexUnit (n : Nat) : String :=
  let ds := Nat.toDigits 16 n
  String.ofList (List.replicate (4 - ds.length) '0' ++ ds)

def escapeChar (c : Char) : String :=
  let n := c.toNat
  if c = '"' then "\\\"" else if c = '\\' then "\\\\"
  else if c = '\n' then "\\n" else if c = '\r' then "\\r" else if c = '\t' then "\\t"
  else if n == 8 then "\\b" else if n == 12 then "\\f"
  else if 0x20 ≤ n && n ≤ 0x7e then String.singleton c
  else if n < 0x10000 then "\\u" ++ hexUnit n
  else
    let m := n - 0x10000
    "\\u" ++ hexUnit (0xd800 + m / 0x400) ++ "\\u" ++ hexUnit (0xdc00 + m % 0x400)

def quote (s : String) : String := "\"" ++ String.join (s.toList.map escapeChar) ++ "\""

def realText (x : Float) : String :=
  match Decimal.parts x with
  | .notANumber => "NaN"
  | .infinite negative => if negative then "-Infinity" else "Infinity"
  | .finite _ => Decimal.shortest x

/-- What stands between the parts of a value, by level: blanks inside of brackets, and blanks behind
commas. -/
structure Layout where
  gap : Nat → String
  space : Nat → String

mutual

def write (l : Layout) (level : Nat) : Json → String
  | .null => "null"
  | .bool b => if b then "true" else "false"
  | .int n => toString n
  | .real x => realText x
  | .str s => quote s
  | .arr [] => "[]"
  | .arr (x :: xs) =>
    "[" ++ l.gap (level + 1) ++ ("," ++ l.space (level + 1)).intercalate (writeItems l (level + 1) (x :: xs)) ++
      l.gap level ++ "]"
  | .obj [] => "\x7b\x7d"
  | .obj (m :: ms) =>
    "\x7b" ++ l.gap (level + 1) ++
      ("," ++ l.space (level + 1)).intercalate (writeMembers l (level + 1) (m :: ms)) ++ l.gap level ++ "\x7d"

def writeItems (l : Layout) (level : Nat) : List Json → List String
  | [] => []
  | x :: xs => write l level x :: writeItems l level xs

def writeMembers (l : Layout) (level : Nat) : List (String × Json) → List String
  | [] => []
  | (k, v) :: ms => (quote k ++ ": " ++ write l level v) :: writeMembers l level ms

end

/-- Writes a value on one line, with a blank behind commas and colons. -/
def compact : Json → String := write { gap := fun _ => "", space := fun _ => " " } 0

/-- Is a value in a list, up to how it is written? -/
def isAmong (xs : List Json) (x : Json) : Bool := (xs.map compact).contains x.compact

def feed (width level : Nat) : String := "\n" ++ String.ofList (List.replicate (width * level) ' ')

/-- Writes a value with every item on a line of its own. -/
def indented (width : Nat) : Json → String := write { gap := feed width, space := feed width } 0

mutual

def sortKeys : Json → Json
  | .arr xs => .arr (sortKeysItems xs)
  | .obj ms => .obj ((sortKeysMembers ms).mergeSort fun a b => a.1 ≤ b.1)
  | j => j

def sortKeysItems : List Json → List Json
  | [] => []
  | x :: xs => sortKeys x :: sortKeysItems xs

def sortKeysMembers : List (String × Json) → List (String × Json)
  | [] => []
  | (k, v) :: ms => (k, sortKeys v) :: sortKeysMembers ms

end

def sortText (j : Json) : String := j.sortKeys.compact

def sortValues (xs : List Json) : List Json :=
  let key (x : Json) : String :=
    match x with
    | .str s => if xs.all (·.text?.isSome) then s else x.sortText
    | _ => x.sortText
  let keyed := xs.map fun x => (key x, x)
  (keyed.mergeSort fun a b => a.1 ≤ b.1).map (·.2)

end ParallelPatterns.Json
