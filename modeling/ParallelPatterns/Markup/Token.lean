import ParallelPatterns.Markup.Basic

/-!
# Tokens of a marked-up document

The characters of a document are cut into opening tags, closing tags, texts and remarks. References
are resolved and attribute values normalised on the way; a document that breaks a rule of the format
has no tokens. Every token takes at least one character, which bounds the recursion.
-/

namespace ParallelPatterns.Markup

inductive Token where
  | opening (tag : String) (attributes : List (String × String)) (closed : Bool)
  | closing (tag : String)
  | text (text : String)
  | remark

def isDocumentChar (c : Char) : Bool :=
  let n := c.toNat
  n == 0x9 || n == 0xa || n == 0xd || (0x20 ≤ n && n ≤ 0xd7ff) || (0xe000 ≤ n && n ≤ 0xfffd) ||
    0x10000 ≤ n

def isNameStart (c : Char) : Bool :=
  let n := c.toNat
  c.isAlpha || c = '_' || c = ':' || (0xc0 ≤ n && n ≤ 0x2ff && n != 0xd7 && n != 0xf7) ||
    (0x370 ≤ n && n ≤ 0x1fff && n != 0x37e) || n == 0x200c || n == 0x200d ||
    (0x2070 ≤ n && n ≤ 0x218f) || (0x2c00 ≤ n && n ≤ 0x2fef) || (0x3001 ≤ n && n ≤ 0xd7ff) ||
    (0xf900 ≤ n && n ≤ 0xfdcf) || (0xfdf0 ≤ n && n ≤ 0xfffd) || (0x10000 ≤ n && n ≤ 0xeffff)

def isNameChar (c : Char) : Bool :=
  let n := c.toNat
  isNameStart c || c.isDigit || c = '-' || c = '.' || n == 0xb7 || (0x300 ≤ n && n ≤ 0x36f) ||
    n == 0x203f || n == 0x2040

def isSpace (c : Char) : Bool := c = ' ' || c = '\t' || c = '\n' || c = '\r'

variable (cs : List Char)

def name? : Option (String × List Char) :=
  match cs with
  | c :: _ =>
    if isNameStart c then some (String.ofList (cs.takeWhile isNameChar), cs.dropWhile isNameChar)
    else none
  | [] => none

def reference? (s : List Char) : Option Char :=
  match s with
  | ['l', 't'] => some '<'
  | ['g', 't'] => some '>'
  | ['a', 'm', 'p'] => some '&'
  | ['q', 'u', 'o', 't'] => some '"'
  | ['a', 'p', 'o', 's'] => some '\''
  | '#' :: 'x' :: ds =>
    let digits := ds.map Json.hexDigit?
    if ds.isEmpty || digits.any (·.isNone) then none
    else checked (digits.foldl (fun n d => 16 * n + d.getD 0) 0)
  | '#' :: ds =>
    if ds.isEmpty || !ds.all Json.isAsciiDigit then none else checked (Json.decimal ds)
  | _ => none
where
  checked (n : Nat) : Option Char :=
    let c := Char.ofNat n
    if c.toNat == n && isDocumentChar c then some c else none

def resolveGo : Nat → List Char → List Char → Option (List Char)
  | _, acc, [] => some acc.reverse
  | 0, _, _ => none
  | fuel + 1, acc, c :: cs =>
    if c = '&' then
      let ref := cs.takeWhile (· ≠ ';')
      match cs.drop ref.length, reference? ref with
      | _ :: rest, some r => resolveGo fuel (r :: acc) rest
      | _, _ => none
    else if isDocumentChar c then resolveGo fuel (c :: acc) cs
    else none

def resolve? : Option String :=
  (resolveGo (cs.length + 1) [] cs).map String.ofList

/-- The value of an attribute: blanks of any form become spaces, and no tag may begin in it. -/
def attributeValue? : Option String :=
  if cs.contains '<' then none
  else resolve? (cs.map fun c => if isSpace c then ' ' else c)

/-- Reads attributes up to the end of an opening tag. -/
def attributesGo : Nat → List (String × String) → List Char →
    Option (List (String × String) × Bool × List Char)
  | 0, _, _ => none
  | fuel + 1, acc, cs =>
    let rest := cs.dropWhile isSpace
    match rest with
    | '>' :: r => some (acc, false, r)
    | '/' :: '>' :: r => some (acc, true, r)
    | _ =>
      if rest.length == cs.length then none
      else match name? rest with
        | none => none
        | some (key, r) =>
          match r.dropWhile isSpace with
          | '=' :: r =>
            match r.dropWhile isSpace with
            | q :: r =>
              if q = '"' || q = '\'' then
                let value := r.takeWhile (· ≠ q)
                match r.drop value.length, attributeValue? value with
                | _ :: r, some v =>
                  if acc.any (fun a => a.1 == key) then none else attributesGo fuel (acc ++ [(key, v)]) r
                | _, _ => none
              else none
            | [] => none
          | _ => none

def upTo (pat : List Char) : List Char → List Char → Option (List Char × List Char)
  | acc, [] => if pat.isEmpty then some (acc.reverse, []) else none
  | acc, c :: cs =>
    match Text.after? pat (c :: cs) with
    | some rest => some (acc.reverse, rest)
    | none => upTo pat (c :: acc) cs

def occurs (pat cs : List Char) : Bool := (upTo pat [] cs).isSome

def token? : Option (Token × List Char) :=
  match cs with
  | '<' :: '/' :: r => do
    let (tag, r) ← name? r
    match r.dropWhile isSpace with
    | '>' :: r => some (.closing tag, r)
    | _ => none
  | '<' :: '!' :: '-' :: '-' :: r => do
    let (body, r) ← upTo ['-', '-'] [] r
    if body.all isDocumentChar then
      match r with
      | '>' :: r => some (.remark, r)
      | _ => none
    else none
  | '<' :: '!' :: '[' :: 'C' :: 'D' :: 'A' :: 'T' :: 'A' :: '[' :: r => do
    let (body, r) ← upTo [']', ']', '>'] [] r
    if body.all isDocumentChar then some (.text (String.ofList body), r) else none
  | '<' :: '?' :: r => do
    let (target, r) ← name? r
    let (body, r) ← upTo ['?', '>'] [] r
    let separated := match body with
      | [] => true
      | c :: _ => isSpace c
    if target.toLower == "xml" || !separated || !body.all isDocumentChar then none
    else some (.remark, r)
  | '<' :: r => do
    let (tag, r) ← name? r
    let (attributes, closed, r) ← attributesGo (r.length + 1) [] r
    some (.opening tag attributes closed, r)
  | _ => do
    let body := cs.takeWhile (· ≠ '<')
    if occurs [']', ']', '>'] body then none
    else
      let text ← resolve? body
      some (.text text, cs.drop body.length)

/-- Cuts a document into tokens; `fuel` bounds their number. -/
def tokensGo : Nat → List Char → Option (List Token)
  | _, [] => some []
  | 0, _ => none
  | fuel + 1, cs =>
    match token? cs with
    | none => none
    | some (t, r) => (tokensGo fuel r).map (t :: ·)

def tokens? (s : String) : Option (List Token) :=
  let cs := s.toList
  tokensGo (cs.length + 1) cs

end ParallelPatterns.Markup
