import ParallelPatterns.Text.Basic

/-!
# Whole numbers in texts

Reading a whole number: blanks around it do not matter, one sign may stand in front, digits of any
script count, and a single low line may stand between two digits.
-/

namespace ParallelPatterns.Text

/-- Reads digits onto the value `n`; `last` says that the character before was a digit, which is
what a low line and the end of the text need. -/
def naturalGo : Nat → Bool → List Char → Option Nat
  | n, last, [] => if last then some n else none
  | n, last, c :: cs =>
    if c = '_' then (if last then naturalGo n false cs else none)
    else match digit? c with
      | some d => naturalGo (10 * n + d) true cs
      | none => none

/-- The whole number that a text denotes. -/
def integer? (s : String) : Option Int :=
  match (trim s).toList with
  | '-' :: cs => (naturalGo 0 false cs).map fun n => -(n : Int)
  | '+' :: cs => (naturalGo 0 false cs).map Int.ofNat
  | cs => (naturalGo 0 false cs).map Int.ofNat

end ParallelPatterns.Text
