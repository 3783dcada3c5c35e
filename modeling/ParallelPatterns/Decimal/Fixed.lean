/-!
# Decimal numbers with a fixed number of places

A binary floating-point number is a whole number times a power of two, so its decimal expansion is
exact. `fixed` rounds that expansion to a number of places, a half going to the even neighbour.
-/

namespace ParallelPatterns.Decimal

/-- A finite floating-point number: `mantissa * 2 ^ exponent`, negated if `negative`. -/
structure Binary where
  negative : Bool
  mantissa : Nat
  exponent : Int
  /-- Is the next smaller number nearer than the next larger one? -/
  narrowBelow : Bool

/-- What a floating-point number is: finite, infinite with a sign, or no number. -/
inductive Parts where
  | finite (value : Binary)
  | infinite (negative : Bool)
  | notANumber

/-- The parts of a floating-point number, read off its bits. -/
def parts (x : Float) : Parts :=
  let bits := x.toBits.toNat
  let negative := bits / Nat.pow 2 63 % 2 == 1
  let biased : Nat := bits / Nat.pow 2 52 % Nat.pow 2 11
  let fraction : Nat := bits % Nat.pow 2 52
  if biased == 2047 then (if fraction == 0 then .infinite negative else .notANumber)
  else if biased == 0 then .finite ⟨negative, fraction, -1074, false⟩
  else .finite ⟨negative, Nat.pow 2 52 + fraction, (biased : Int) - 1075, fraction == 0 && biased != 1⟩

/-- The quotient rounded to the nearest whole number, a half going to the even neighbour. -/
def roundDiv (num den : Nat) : Nat :=
  let q := num / den
  let r := num % den
  if 2 * r < den then q else if den < 2 * r then q + 1 else if q % 2 == 0 then q else q + 1

def Binary.scaled (b : Binary) (places : Nat) : Nat :=
  match b.exponent with
  | .ofNat e => b.mantissa * Nat.pow 2 e * Nat.pow 10 places
  | .negSucc e => roundDiv (b.mantissa * Nat.pow 10 places) (Nat.pow 2 (e + 1))

/-- A digit text filled with zeros at the front up to a width. -/
def padZeros (width : Nat) (n : Nat) : String :=
  let s := toString n
  String.ofList (List.replicate (width - s.length) '0') ++ s

def pointed (places : Nat) (n : Nat) : String :=
  if places == 0 then toString n
  else toString (n / Nat.pow 10 places) ++ "." ++ padZeros places (n % Nat.pow 10 places)

def fixed (places : Nat) (x : Float) : String :=
  match parts x with
  | .notANumber => "nan"
  | .infinite negative => if negative then "-inf" else "inf"
  | .finite b =>
    let n := b.scaled places
    (if b.negative && n != 0 then "-" else "") ++ pointed places n

end ParallelPatterns.Decimal
