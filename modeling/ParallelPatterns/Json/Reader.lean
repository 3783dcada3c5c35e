import ParallelPatterns.Json.Basic

/-!
# Reading JSON

The reader takes the characters of a text and gives the value with the characters behind it. Whole
numbers have any size; `NaN`, `Infinity` and `-Infinity` are read as reals; of a repeated key the
last value counts, at the place of the first. The recursion is bounded by the length of the text,
since every value takes at least one character.
-/

namespace ParallelPatterns.Json

def skipBlanks (cs : List Char) : List Char :=
  cs.dropWhile fun c => c = ' ' || c = '\t' || c = '\n' || c = '\r'

def hexDigit? (c : Char) : Option Nat :=
  if '0' ≤ c && c ≤ '9' then some (c.toNat - 48)
  else if 'a' ≤ c && c ≤ 'f' then some (c.toNat - 87)
  else if 'A' ≤ c && c ≤ 'F' then some (c.toNat - 55)
  else none

/-- The number that four hexadecimal digits denote. -/
def hexUnit? (a b c d : Char) : Option Nat := do
  let a ← hexDigit? a
  let b ← hexDigit? b
  let c ← hexDigit? c
  let d ← hexDigit? d
  return ((a * 16 + b) * 16 + c) * 16 + d

def pairedUnits (high low : Nat) : Char :=
  Char.ofNat (0x10000 + (high - 0xd800) * 0x400 + (low - 0xdc00))

/-- Reads the rest of a string behind its opening quote; `acc` holds the characters read so far in
reverse. Two escaped units that form a pair are one character. -/
def stringGo : List Char → List Char → Option (String × List Char)
  | _, [] => none
  | acc, '"' :: cs => some (String.ofList acc.reverse, cs)
  | acc, '\\' :: 'u' :: a :: b :: c :: d :: '\\' :: 'u' :: e :: f :: g :: h :: cs =>
    match hexUnit? a b c d with
    | none => none
    | some u =>
      if 0xd800 ≤ u && u ≤ 0xdbff then
        match hexUnit? e f g h with
        | some l =>
          if 0xdc00 ≤ l && l ≤ 0xdfff then stringGo (pairedUnits u l :: acc) cs
          else stringGo (Char.ofNat 0xfffd :: acc) ('\\' :: 'u' :: e :: f :: g :: h :: cs)
        | none => none
      else stringGo ((if 0xdc00 ≤ u && u ≤ 0xdfff then Char.ofNat 0xfffd else Char.ofNat u) :: acc)
        ('\\' :: 'u' :: e :: f :: g :: h :: cs)
  | acc, '\\' :: 'u' :: a :: b :: c :: d :: cs =>
    match hexUnit? a b c d with
    | none => none
    | some u => stringGo ((if 0xd800 ≤ u && u ≤ 0xdfff then Char.ofNat 0xfffd else Char.ofNat u) :: acc) cs
  | acc, '\\' :: c :: cs =>
    match c with
    | '"' => stringGo ('"' :: acc) cs
    | '\\' => stringGo ('\\' :: acc) cs
    | '/' => stringGo ('/' :: acc) cs
    | 'b' => stringGo (Char.ofNat 8 :: acc) cs
    | 'f' => stringGo (Char.ofNat 12 :: acc) cs
    | 'n' => stringGo ('\n' :: acc) cs
    | 'r' => stringGo ('\r' :: acc) cs
    | 't' => stringGo ('\t' :: acc) cs
    | _ => none
  | acc, c :: cs => if c.toNat < 0x20 || c = '\\' then none else stringGo (c :: acc) cs
termination_by _ cs => cs.length

/-- The value of a run of ASCII digits. -/
def decimal (ds : List Char) : Nat := ds.foldl (fun n c => 10 * n + (c.toNat - 48)) 0

def isAsciiDigit (c : Char) : Bool := '0' ≤ c && c ≤ '9'

def fraction? : List Char → Option (List Char × List Char)
  | '.' :: cs =>
    let ds := cs.takeWhile isAsciiDigit
    if ds.isEmpty then none else some (ds, cs.dropWhile isAsciiDigit)
  | _ => none

def exponent? : List Char → Option (Int × List Char)
  | e :: cs =>
    if e = 'e' || e = 'E' then
      let (negative, cs) := match cs with
        | '-' :: r => (true, r)
        | '+' :: r => (false, r)
        | r => (false, r)
      let ds := cs.takeWhile isAsciiDigit
      if ds.isEmpty then none
      else
        let n : Int := decimal ds
        some (if negative then -n else n, cs.dropWhile isAsciiDigit)
    else none
  | [] => none

/-- The digits of a whole part: a single zero, or digits without a leading zero. -/
def wholeDigits (cs : List Char) : List Char :=
  match cs with
  | '0' :: _ => ['0']
  | _ => cs.takeWhile isAsciiDigit

def realOf (digits : Nat) (exponent : Int) : Float :=
  match exponent with
  | .ofNat e => Float.ofScientific digits false e
  | .negSucc e => Float.ofScientific digits true (e + 1)

/-- Reads a number without its sign: a whole part without leading zeros, a fraction, an exponent. -/
def number? (negative : Bool) (cs : List Char) : Option (Json × List Char) :=
  let whole := wholeDigits cs
  if whole.isEmpty then none
  else
    let rest := cs.drop whole.length
    let signed (x : Float) : Float := if negative then -x else x
    match fraction? rest with
    | none =>
      match exponent? rest with
      | none =>
        let n : Int := decimal whole
        some (.int (if negative then -n else n), rest)
      | some (e, rest) => some (.real (signed (realOf (decimal whole) e)), rest)
    | some (frac, rest) =>
      let (e, rest) := match exponent? rest with
        | none => ((0 : Int), rest)
        | some (e, rest) => (e, rest)
      some (.real (signed (realOf (decimal (whole ++ frac)) (e - frac.length))), rest)

def setMember (ms : List (String × Json)) (key : String) (value : Json) : List (String × Json) :=
  match ms with
  | [] => [(key, value)]
  | m :: r => if m.1 == key then (m.1, value) :: r else m :: setMember r key value

mutual

def valueGo : Nat → List Char → Option (Json × List Char)
  | 0, _ => none
  | fuel + 1, cs =>
    match cs with
    | '"' :: r => (stringGo [] r).map fun (s, r) => (.str s, r)
    | '[' :: r =>
      match skipBlanks r with
      | ']' :: r => some (.arr [], r)
      | r => itemsGo fuel [] r
    | '{' :: r =>
      match skipBlanks r with
      | '}' :: r => some (.obj [], r)
      | r => membersGo fuel [] r
    | 'n' :: 'u' :: 'l' :: 'l' :: r => some (.null, r)
    | 't' :: 'r' :: 'u' :: 'e' :: r => some (.bool true, r)
    | 'f' :: 'a' :: 'l' :: 's' :: 'e' :: r => some (.bool false, r)
    | 'N' :: 'a' :: 'N' :: r => some (.real (0.0 / 0.0), r)
    | 'I' :: 'n' :: 'f' :: 'i' :: 'n' :: 'i' :: 't' :: 'y' :: r => some (.real (1.0 / 0.0), r)
    | '-' :: 'I' :: 'n' :: 'f' :: 'i' :: 'n' :: 'i' :: 't' :: 'y' :: r => some (.real (-1.0 / 0.0), r)
    | '-' :: r => number? true r
    | r => number? false r

def itemsGo : Nat → List Json → List Char → Option (Json × List Char)
  | 0, _, _ => none
  | fuel + 1, acc, cs =>
    match valueGo fuel cs with
    | none => none
    | some (v, r) =>
      match skipBlanks r with
      | ',' :: r => itemsGo fuel (v :: acc) (skipBlanks r)
      | ']' :: r => some (.arr (v :: acc).reverse, r)
      | _ => none

def membersGo : Nat → List (String × Json) → List Char → Option (Json × List Char)
  | 0, _, _ => none
  | fuel + 1, acc, cs =>
    match cs with
    | '"' :: r =>
      match stringGo [] r with
      | none => none
      | some (key, r) =>
        match skipBlanks r with
        | ':' :: r =>
          match valueGo fuel (skipBlanks r) with
          | none => none
          | some (v, r) =>
            match skipBlanks r with
            | ',' :: r => membersGo fuel (setMember acc key v) (skipBlanks r)
            | '}' :: r => some (.obj (setMember acc key v), r)
            | _ => none
        | _ => none
    | _ => none

end

def parse? (s : String) : Option Json :=
  let cs := s.toList
  match valueGo (2 * cs.length + 2) (skipBlanks cs) with
  | none => none
  | some (v, r) => if (skipBlanks r).isEmpty then some v else none

end ParallelPatterns.Json
