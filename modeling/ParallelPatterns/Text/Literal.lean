import ParallelPatterns.Text.Basic

/-!
# Values as literals

Reports and messages show values as literals: a text stands between quotes, with characters that
cannot be printed escaped; tuples, lists and sets show their members between their own brackets.
A text is quoted with apostrophes, unless it holds an apostrophe and no double quote.
-/

namespace ParallelPatterns.Text

/-- First and last character of each range of control, format, private and separator characters. -/
def unprintableRanges : List (Nat × Nat) :=
  [(0x0, 0x1f), (0x7f, 0xa0), (0xad, 0xad), (0x600, 0x605), (0x61c, 0x61c), (0x6dd, 0x6dd),
    (0x70f, 0x70f), (0x890, 0x891), (0x8e2, 0x8e2), (0x1680, 0x1680), (0x180e, 0x180e),
    (0x2000, 0x200f), (0x2028, 0x202f), (0x205f, 0x206f), (0x3000, 0x3000), (0xe000, 0xf8ff),
    (0xfeff, 0xfeff), (0xfff0, 0xfffb), (0xfffe, 0xffff), (0x110bd, 0x110bd), (0x110cd, 0x110cd),
    (0x13430, 0x13438), (0x1bca0, 0x1bca3), (0x1d173, 0x1d17a), (0xe0000, 0xe00ff),
    (0xe01f0, 0x10ffff)]

def isPrintable (c : Char) : Bool :=
  unprintableRanges.all fun r => c.toNat < r.1 || r.2 < c.toNat

/-- Lower-case hexadecimal digits, filled with zeros up to a width. -/
def hex (width n : Nat) : String :=
  let ds := Nat.toDigits 16 n
  String.ofList (List.replicate (width - ds.length) '0' ++ ds)

def literalChar (q c : Char) : String :=
  let n := c.toNat
  if c = q || c = '\\' then String.ofList ['\\', c]
  else if c = '\n' then "\\n" else if c = '\r' then "\\r" else if c = '\t' then "\\t"
  else if isPrintable c then String.singleton c
  else if n < 0x100 then "\\x" ++ hex 2 n
  else if n < 0x10000 then "\\u" ++ hex 4 n
  else "\\U" ++ hex 8 n

def quoteOf (s : String) : Char :=
  if s.toList.contains '\'' && !s.toList.contains '"' then '"' else '\''

def literal (s : String) : String :=
  let q := quoteOf s
  String.singleton q ++ String.join (s.toList.map (literalChar q)) ++ String.singleton q

def optionLiteral : Option String → String
  | none => "None"
  | some s => literal s

def boolLiteral (b : Bool) : String := if b then "True" else "False"

def listLiteral (xs : List String) : String := "[" ++ ", ".intercalate xs ++ "]"

def tupleLiteral : List String → String
  | [x] => "(" ++ x ++ ",)"
  | xs => "(" ++ ", ".intercalate xs ++ ")"

def setLiteral (xs : List String) : String :=
  if xs.isEmpty then "set()" else "\x7b" ++ ", ".intercalate xs ++ "\x7d"

end ParallelPatterns.Text
