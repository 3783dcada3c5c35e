import ParallelPatterns.Decimal.Fixed

/-!
# The fewest digits that read back

The shortest decimal text of a floating-point number: of all decimals that round to it, the one with
the fewest digits, and of those the nearest. `digits?` tests the two neighbours of the number on the
grid of 1, 2, … 17 digits in exact arithmetic; `shortest` writes the digits positionally for the
decimal exponents from -4 to 15 and with an exponent otherwise.
-/

namespace ParallelPatterns.Decimal

/-- The interval of reals that round to a number, over one common denominator: numerators of the
lower end, the number itself and the upper end. -/
structure Interval where
  low : Nat
  value : Nat
  high : Nat
  den : Nat
  closed : Bool

/-- The reals that round to a positive number. -/
def Binary.interval (b : Binary) : Interval :=
  let value := 4 * b.mantissa
  let low := if b.narrowBelow then value - 1 else value - 2
  let (scale, den) := match b.exponent with
    | .ofNat e => (Nat.pow 2 e, 4)
    | .negSucc e => (1, 4 * Nat.pow 2 (e + 1))
  { low := low * scale, value := value * scale, high := (value + 2) * scale, den
    closed := b.mantissa % 2 == 0 }

variable (i : Interval)

def Interval.holds (d : Nat) (e : Int) : Bool :=
  let (n, den) := match e with
    | .ofNat k => (d * Nat.pow 10 k * i.den, 1)
    | .negSucc k => (d * i.den, Nat.pow 10 (k + 1))
  if i.closed then i.low * den ≤ n && n ≤ i.high * den else i.low * den < n && n < i.high * den

/-- The whole part and remainder of the number on the grid `10 ^ e`, the remainder as a fraction. -/
def Interval.onGrid (e : Int) : Nat × Nat × Nat :=
  let (n, den) := match e with
    | .ofNat k => (i.value, i.den * Nat.pow 10 k)
    | .negSucc k => (i.value * Nat.pow 10 (k + 1), i.den)
  (n / den, n % den, den)

/-- The decimal exponent `k` with `10 ^ k ≤ number < 10 ^ (k + 1)`, found by counting down from the
number of digits of the numerator. -/
def Interval.magnitude : Int :=
  let whole := i.value / i.den
  if whole != 0 then ((toString whole).length : Int) - 1
  else
    let inverse := (i.den + i.value - 1) / i.value
    let k := (toString inverse).length
    -- `10 ^ (k - 1) ≤ inverse`, so the number is at most `10 ^ (1 - k)`
    if i.value * Nat.pow 10 (k - 1) ≥ i.den then 1 - (k : Int) else -(k : Int)

/-- The nearest decimal with `n` digits that rounds to the number, as digits and exponent. -/
def Interval.withDigits? (n : Nat) : Option (Nat × Int) :=
  let e := i.magnitude - (n : Int) + 1
  let (d, r, den) := i.onGrid e
  let below := i.holds d e
  let above := i.holds (d + 1) e
  if below && above then
    some (if 2 * r < den || (2 * r == den && d % 2 == 0) then d else d + 1, e)
  else if below then some (d, e)
  else if above then some (d + 1, e)
  else none

def dropZeros : Nat → Nat → Int → Nat × Int
  | 0, d, e => (d, e)
  | fuel + 1, d, e => if d % 10 == 0 && d != 0 then dropZeros fuel (d / 10) (e + 1) else (d, e)

/-- The fewest digits that read back, with their exponent. -/
def Binary.digits (b : Binary) : Nat × Int :=
  let i := b.interval
  match (List.range 17).findSome? fun k => i.withDigits? (k + 1) with
  | some (d, e) => dropZeros 20 d e
  | none => (0, 0)

/-- Writes digits times a power of ten positionally. -/
def positional (d : Nat) (e : Int) : String :=
  let ds := toString d
  match e with
  | .ofNat k => ds ++ String.ofList (List.replicate k '0') ++ ".0"
  | .negSucc k =>
    let places := k + 1
    if places < ds.length then
      String.ofList (ds.toList.take (ds.length - places)) ++ "." ++
        String.ofList (ds.toList.drop (ds.length - places))
    else "0." ++ padZeros places d

def pointedFirst : List Char → List Char
  | [] => []
  | [c] => [c]
  | c :: cs => c :: '.' :: cs

/-- Writes digits with the decimal exponent of the first one, which has at least two places. -/
def scientific (d : Nat) (magnitude : Int) : String :=
  String.ofList (pointedFirst (toString d).toList) ++ "e" ++ (if magnitude < 0 then "-" else "+") ++
    padZeros 2 magnitude.natAbs

/-- Writes the digits `d * 10 ^ e`: positionally for exponents from -4 to 15, otherwise as digits
with a decimal exponent. -/
def writeDigits (d : Nat) (e : Int) : String :=
  let magnitude := e + (toString d).length - 1
  if -4 ≤ magnitude && magnitude < 16 then positional d e else scientific d magnitude

/-- The shortest decimal text that reads back as the number. -/
def shortest (x : Float) : String :=
  match parts x with
  | .notANumber => "nan"
  | .infinite negative => if negative then "-inf" else "inf"
  | .finite b =>
    let sign := if b.negative then "-" else ""
    if b.mantissa == 0 then sign ++ "0.0"
    else
      let (d, e) := b.digits
      sign ++ writeDigits d e

end ParallelPatterns.Decimal
