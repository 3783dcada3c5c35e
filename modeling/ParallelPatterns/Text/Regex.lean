import ParallelPatterns.Text.Basic

/-!
# Regular expressions

Expressions with alternatives, groups, character sets, repetition and anchors, read from their usual
text. `Regex.ends` lists the positions at which a match that begins at a position may end, the
preferred one first; a greedy repetition prefers more turns. `Regex.findAll` gives the matches from
the left that do not overlap.
-/

namespace ParallelPatterns.Text

inductive SetItem where
  | range (first last : Char)
  /-- A class such as `\d`: digits, word characters or blanks, or all others. -/
  | cls (letter : Char)
  deriving DecidableEq, Repr

inductive Regex where
  | empty
  /-- Any character but a line feed. -/
  | any
  | set (negated : Bool) (items : List SetItem)
  | seq (a b : Regex)
  | alt (a b : Regex)
  | rep (greedy : Bool) (least : Nat) (most : Option Nat) (body : Regex)
  | anchor (letter : Char)
  deriving Repr, Inhabited

namespace Regex

def isWordChar (c : Char) : Bool :=
  c.isAlphanum || c = '_' || (c.toNat ≥ 0xaa && !isBlank c && c.toNat != 0xd7 && c.toNat != 0xf7)

def inClass (letter c : Char) : Bool :=
  match letter with
  | 'd' => (digit? c).isSome
  | 'D' => (digit? c).isNone
  | 's' => isBlank c
  | 'S' => !isBlank c
  | 'w' => isWordChar c
  | 'W' => !isWordChar c
  | _ => false

def SetItem.holds (c : Char) : SetItem → Bool
  | .range a b => a ≤ c && c ≤ b
  | .cls l => inClass l c

def anchored (text : Array Char) (letter : Char) (i : Nat) : Bool :=
  let word (j : Nat) : Bool := text[j]?.any isWordChar
  let boundary : Bool := (if i == 0 then false else word (i - 1)) != word i
  match letter with
  | '^' => i == 0
  | 'A' => i == 0
  | '$' => i == text.size || (i + 1 == text.size && text[i]? == some '\n')
  | 'Z' => i == text.size
  | 'b' => boundary
  | 'B' => !boundary
  | _ => false

/-- The ends of a repetition of a step: `turns` turns have been made, and each further turn must
move on once the least number has been made. -/
def repeatEnds (step : Nat → List Nat) (greedy : Bool) (least : Nat) (most : Option Nat) :
    Nat → Nat → Nat → List Nat
  | 0, turns, i => if least ≤ turns then [i] else []
  | fuel + 1, turns, i =>
    let more : List Nat :=
      if most.all (turns < ·) then
        (step i).flatMap fun j =>
          if j == i && least ≤ turns then [] else repeatEnds step greedy least most fuel (turns + 1) j
      else []
    let stop : List Nat := if least ≤ turns then [i] else []
    (if greedy then more ++ stop else stop ++ more).eraseDups

def ends (text : Array Char) : Regex → Nat → List Nat
  | .empty, i => [i]
  | .any, i =>
    match text[i]? with
    | some c => if c = '\n' then [] else [i + 1]
    | none => []
  | .set negated items, i =>
    match text[i]? with
    | some c => if items.any (SetItem.holds c) != negated then [i + 1] else []
    | none => []
  | .seq a b, i => ((ends text a i).flatMap fun j => ends text b j).eraseDups
  | .alt a b, i => (ends text a i ++ ends text b i).eraseDups
  | .rep greedy least most body, i =>
    repeatEnds (fun j => ends text body j) greedy least most (text.size + least + 1) 0 i
  | .anchor l, i => if anchored text l i then [i] else []

def findFrom (text : Array Char) (r : Regex) : Nat → Nat → Option (Nat × Nat)
  | 0, _ => none
  | fuel + 1, i =>
    match (ends text r i).head? with
    | some j => some (i, j)
    | none => findFrom text r fuel (i + 1)

def findAllGo (text : Array Char) (r : Regex) : Nat → Nat → Option Nat → List (Nat × Nat)
  | 0, _, _ => []
  | fuel + 1, i, lastEmpty =>
    if i > text.size then []
    else match findFrom text r (text.size + 1 - i) i with
      | none => []
      | some (a, b) =>
        if a == b then
          if lastEmpty == some a then
            -- the same empty match again: look for a longer one here, else move on
            match (ends text r a).find? (· ≠ a) with
            | some b => (a, b) :: findAllGo text r fuel b none
            | none => findAllGo text r fuel (a + 1) none
          else (a, b) :: findAllGo text r fuel a (some a)
        else (a, b) :: findAllGo text r fuel b none

/-- The matches in a text from the left, as start and end positions. -/
def findAll (r : Regex) (s : String) : List (Nat × Nat) :=
  let text := s.toList.toArray
  findAllGo text r (2 * text.size + 3) 0 none

def char (c : Char) : Regex := .set false [.range c c]

def escape? (c : Char) : Option (Regex ⊕ SetItem) :=
  match c with
  | 'd' | 'D' | 's' | 'S' | 'w' | 'W' => some (.inr (.cls c))
  | 'A' | 'Z' | 'b' | 'B' => some (.inl (.anchor c))
  | 'n' => some (.inr (.range '\n' '\n'))
  | 't' => some (.inr (.range '\t' '\t'))
  | 'r' => some (.inr (.range '\r' '\r'))
  | 'f' => some (.inr (.range (Char.ofNat 12) (Char.ofNat 12)))
  | 'v' => some (.inr (.range (Char.ofNat 11) (Char.ofNat 11)))
  | 'a' => some (.inr (.range (Char.ofNat 7) (Char.ofNat 7)))
  | _ => if c.isAlphanum then none else some (.inr (.range c c))

def setMember? : List Char → Option (SetItem × List Char)
  | '\\' :: c :: r =>
    if c = 'b' then some (.range (Char.ofNat 8) (Char.ofNat 8), r)
    else match escape? c with
      | some (.inr i) => some (i, r)
      | _ => none
  | '\\' :: [] => none
  | c :: r => some (.range c c, r)
  | [] => none

def setItems? : Nat → Bool → List SetItem → List Char → Option (List SetItem × List Char)
  | 0, _, _, _ => none
  | fuel + 1, first, acc, cs =>
    match cs with
    | [] => none
    | ']' :: r =>
      if first then setItems? fuel false (acc ++ [.range ']' ']']) r else some (acc, r)
    | _ =>
      match setMember? cs with
      | none => none
      | some (.range a b, '-' :: ']' :: r) => some (acc ++ [.range a b, .range '-' '-'], r)
      | some (.range a _, '-' :: r) =>
        match setMember? r with
        | some (.range b _, r) => if b < a then none else setItems? fuel false (acc ++ [.range a b]) r
        | _ => none
      | some (i, r) => setItems? fuel false (acc ++ [i]) r

/-- The number of turns that a repetition mark asks for. -/
def bounds? (cs : List Char) : Option (Nat × Option Nat × List Char) :=
  let digits (ds : List Char) : Nat := ds.foldl (fun n c => 10 * n + (c.toNat - 48)) 0
  match cs with
  | '*' :: r => some (0, none, r)
  | '+' :: r => some (1, none, r)
  | '?' :: r => some (0, some 1, r)
  | '{' :: r =>
    let lo := r.takeWhile Char.isDigit
    match r.drop lo.length with
    | '}' :: r => if lo.isEmpty then none else some (digits lo, some (digits lo), r)
    | ',' :: r =>
      let hi := r.takeWhile Char.isDigit
      match r.drop hi.length with
      | '}' :: r =>
        if lo.isEmpty && hi.isEmpty then some (0, none, r)
        else some (digits lo, if hi.isEmpty then none else some (digits hi), r)
      | _ => none
    | _ => none
  | _ => none

mutual

/-- Reads alternatives up to a closing bracket or the end. -/
def alternatives? : Nat → List Char → Option (Regex × List Char)
  | 0, _ => none
  | fuel + 1, cs =>
    match sequence? fuel .empty cs with
    | none => none
    | some (a, '|' :: r) => (alternatives? fuel r).map fun (b, r) => (.alt a b, r)
    | some (a, r) => some (a, r)

def sequence? : Nat → Regex → List Char → Option (Regex × List Char)
  | 0, _, _ => none
  | fuel + 1, acc, cs =>
    match cs with
    | [] => some (acc, [])
    | '|' :: _ => some (acc, cs)
    | ')' :: _ => some (acc, cs)
    | _ =>
      match item? fuel cs with
      | none => none
      | some (a, r) =>
        match bounds? r with
        | none => sequence? fuel (.seq acc a) r
        | some (lo, hi, r) =>
          let anchor := match a with
            | .anchor _ => true
            | _ => false
          let reversed := hi.any (· < lo)
          if anchor || reversed then none
          else
            let (greedy, r) := match r with
              | '?' :: r => (false, r)
              | r => (true, r)
            match bounds? r with
            | some _ => none
            | none => sequence? fuel (.seq acc (.rep greedy lo hi a)) r

/-- Reads one item: a group, a set, an escape or a character. -/
def item? : Nat → List Char → Option (Regex × List Char)
  | 0, _ => none
  | fuel + 1, cs =>
    match cs with
    | '(' :: r =>
      let body := match r with
        | '?' :: ':' :: r => some r
        | '?' :: _ => none
        | r => some r
      match body with
      | none => none
      | some r =>
        match alternatives? fuel r with
        | some (a, ')' :: r) => some (a, r)
        | _ => none
    | '[' :: '^' :: r => (setItems? (r.length + 1) true [] r).map fun (is, r) => (.set true is, r)
    | '[' :: r => (setItems? (r.length + 1) true [] r).map fun (is, r) => (.set false is, r)
    | '.' :: r => some (.any, r)
    | '^' :: r => some (.anchor '^', r)
    | '$' :: r => some (.anchor '$', r)
    | '\\' :: c :: r =>
      match escape? c with
      | some (.inl a) => some (a, r)
      | some (.inr i) => some (.set false [i], r)
      | none => none
    | '\\' :: [] => none
    | c :: r => if (bounds? (c :: r)).isSome then none else some (char c, r)
    | [] => none

end

/-- The expression of a text, if the text is well-formed. -/
def parse? (s : String) : Option Regex :=
  let cs := s.toList
  match alternatives? (4 * cs.length + 4) cs with
  | some (r, []) => some r
  | _ => none

end Regex

end ParallelPatterns.Text
