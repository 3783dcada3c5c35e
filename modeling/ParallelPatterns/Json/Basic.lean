/-!
# JSON values

Values of the data format in which patterns are stored: whole and real numbers are told apart, and
an object lists its members in the order in which their keys first came in.
-/

namespace ParallelPatterns

inductive Json where
  | null
  | bool (value : Bool)
  | int (value : Int)
  | real (value : Float)
  | str (text : String)
  | arr (items : List Json)
  | obj (members : List (String × Json))
  deriving Inhabited

namespace Json

def get? (j : Json) (key : String) : Option Json :=
  match j with
  | .obj ms => (ms.find? fun m => m.1 == key).map (·.2)
  | _ => none

def members? : Json → Option (List (String × Json))
  | .obj ms => some ms
  | _ => none

def items? : Json → Option (List Json)
  | .arr xs => some xs
  | _ => none

def text? : Json → Option String
  | .str s => some s
  | _ => none

def int? : Json → Option Int
  | .int n => some n
  | _ => none

def strings (xs : List String) : Json := .arr (xs.map .str)

def optionStr : Option String → Json
  | none => .null
  | some s => .str s

end Json

end ParallelPatterns
