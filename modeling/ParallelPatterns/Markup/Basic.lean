import ParallelPatterns.Decimal.Shortest
import ParallelPatterns.Failure
import ParallelPatterns.Json.Reader
import ParallelPatterns.Text.Integer

/-!
# Marked-up documents

A document is a tree of elements, text and remarks. The accessors look for the children with a tag
and for the text in front of an element's first child. The text of an element without children is
*typed*: a text that reads as a whole number, a real number or a truth value is that value, and is
shown again in the value's own form.
-/

namespace ParallelPatterns

/-- A part of a marked-up document. -/
inductive Markup where
  | element (tag : String) (attributes : List (String × String)) (content : List Markup)
  | text (text : String)
  | remark
  deriving Inhabited

namespace Markup

def tag : Markup → String
  | .element t _ _ => t
  | _ => ""

def attributes : Markup → List (String × String)
  | .element _ as _ => as
  | _ => []

def content : Markup → List Markup
  | .element _ _ c => c
  | _ => []

def isElement : Markup → Bool
  | .element _ _ _ => true
  | _ => false

def isText : Markup → Bool
  | .text _ => true
  | _ => false

variable (m : Markup)

def attribute? (name : String) : Option String := m.attributes.lookup name

def elements : List Markup := m.content.filter isElement

variable (tag : String)

def childrenOf : List Markup :=
  m.content.filter fun c => c.isElement && c.tag == tag

def child? : Option Markup := (m.childrenOf tag).head?

def child : Result Markup :=
  (m.child? tag).getDM (.error .missingProperty)

def hasChild : Bool := (m.child? tag).isSome

def leadingTexts : List Markup → List String
  | .text s :: r => s :: leadingTexts r
  | _ => []

def text? : Option String :=
  match leadingTexts m.content with
  | [] => none
  | ts => some (String.join ts)

def hasParts : Bool := m.content.any fun c => !c.isText

/-- What the text of an element denotes. -/
inductive Typed where
  | text (s : String)
  | whole (n : Int)
  | real (x : Float)
  | truth (b : Bool)

/-- The whole number that a plain text denotes: blanks, a sign and ASCII digits. -/
def plainInteger? (s : String) : Option Int :=
  let body := match (Text.trim s).toList with
    | '-' :: r => r
    | '+' :: r => r
    | r => r
  if body.isEmpty || !body.all Json.isAsciiDigit then none else Text.integer? s

/-- The real number that a plain text denotes: blanks, a sign, digits with a point, an exponent. -/
def plainReal? (s : String) : Option Float :=
  let (negative, body) := match (Text.trim s).toList with
    | '-' :: r => (true, r)
    | '+' :: r => (false, r)
    | r => (false, r)
  let whole := body.takeWhile Json.isAsciiDigit
  let rest := body.dropWhile Json.isAsciiDigit
  let (frac, rest) := match rest with
    | '.' :: r => (r.takeWhile Json.isAsciiDigit, r.dropWhile Json.isAsciiDigit)
    | r => ([], r)
  if whole.isEmpty && frac.isEmpty then none
  else
    let signed (x : Float) : Float := if negative then -x else x
    let digits := Json.decimal (whole ++ frac)
    match Json.exponent? rest with
    | some (e, []) => some (signed (Json.realOf digits (e - frac.length)))
    | some _ => none
    | none => if rest.isEmpty then some (signed (Json.realOf digits (-(frac.length : Int)))) else none

def typed : Typed :=
  let s := m.text?.getD ""
  if m.hasParts then .text s
  else match plainInteger? s with
    | some n => .whole n
    | none =>
      match plainReal? s with
      | some x => .real x
      | none => if s == "true" then .truth true else if s == "false" then .truth false else .text s

def shown : String :=
  match m.typed with
  | .text s => s
  | .whole n => toString n
  | .real x => Decimal.shortest x
  | .truth b => Text.boolLiteral b

/-- Does the element count as filled? An element with parts does; numbers do unless they are
zero. -/
def isFilled : Bool :=
  if m.hasParts then true
  else match m.typed with
    | .text s => !s.isEmpty
    | .whole n => n != 0
    | .real x => x != 0.0
    | .truth b => b

def wholePart (x : Float) : Int :=
  match Decimal.parts x with
  | .finite b =>
    let n : Int := match b.exponent with
      | .ofNat e => (b.mantissa * Nat.pow 2 e : Nat)
      | .negSucc e => (b.mantissa / Nat.pow 2 (e + 1) : Nat)
    if b.negative then -n else n
  | _ => 0

def toInt : Result Int :=
  if m.hasParts then .error .wrongSort
  else match m.typed with
    | .whole n => .ok n
    | .real x => .ok (wholePart x)
    | .truth b => .ok (if b then 1 else 0)
    | .text _ => do (Text.integer? (← m.text?.getDM (.error .wrongSort))).getDM (.error .notANumber)

end Markup

end ParallelPatterns
