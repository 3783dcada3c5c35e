import ParallelPatterns.Failure
import ParallelPatterns.Text.Regex

/-!
# Aliases that a statement defines

A statement defines an alias of a variable if it assigns the variable, or its address, to another
name. Whether the right side is the variable itself depends on its type: of a pointer the value
counts, of anything else the address.
-/

namespace ParallelPatterns.Alias

open Text

def placeOf (name text : String) : Result Nat :=
  (find? name text).getDM (.error .absentText)

def charAt (text : String) (i : Nat) : Option Char := text.toList[i]?

def charBefore (text : String) (i back : Nat) : Option Char :=
  if back ≤ i then charAt text (i - back) else none

/-- Is the use of a pointer on the right side no use of the pointer itself, but of what it points
to? -/
def isObviousAccess (name right : String) : Result Bool := do
  let i ← placeOf name right
  return charAt right (i + name.length) == some '[' || charBefore right i 1 == some '*' ||
    (charBefore right i 2 == some '*' && charBefore right i 1 == some '(' &&
      !has ")" (slice (i - 2) (i + name.length) right))

/-- Is the use of a variable that is no pointer anything but its address? -/
def isPossibleAccess (name right : String) : Result Bool := do
  let i ← placeOf name right
  let before := charBefore right i 1
  return (before.isSome && before != some '&') || charAt right (i + name.length) == some '[' ||
    (before == some '&' && charBefore right i 2 == some '*')

/-- Does the right side of an assignment use the variable in a way that makes no alias? -/
def isAccess (type : Option String) (name right : String) : Result Bool :=
  type.elim (.error .wrongSort)
    fun t => if has "*" t then isObviousAccess name right else isPossibleAccess name right

def occursAsWordGo (word : List Char) : List Char → Bool
  | [] => false
  | c :: rest =>
    (!Text.Regex.isWordChar c && match after? word rest with
      | some (d :: _) => !Text.Regex.isWordChar d
      | _ => false) || occursAsWordGo word rest

def occursAsWord (word text : String) : Bool := occursAsWordGo word.toList text.toList

def plainAssignments (s : String) : String :=
  let blanks : List (String × String) :=
    [("<=>", "  "), ("<<=", "   "), (">>=", "   "), ("==", "  "), ("!=", "  "), ("+=", "  "),
      ("-=", "  "), ("*=", "  "), ("/=", "  "), ("%=", "  "), ("<=", "  "), (">=", "  "),
      ("&=", "  "), ("^=", "  "), ("|=", "  ")]
  blanks.foldl (fun s (op, blank) => replace op blank s) s

/-- The call at the front of a text that begins inside of a word: the rest of the word, a bracket,
and everything up to the last closing bracket of the line. -/
def callHere? (cs : List Char) : Option (List Char) :=
  let word := cs.takeWhile Text.Regex.isWordChar
  match cs.dropWhile Text.Regex.isWordChar with
  | '(' :: rest =>
    if word.isEmpty then none
    else
      let line := rest.takeWhile (· ≠ '\n')
      let back := line.reverse.dropWhile (· ≠ ')')
      if back.isEmpty then none else some (word ++ '(' :: back.reverse)
  | _ => none

def callPart? : List Char → Option (List Char)
  | [] => none
  | c :: rest => (callHere? (c :: rest)).orElse fun _ => callPart? rest

def partsBetween (plain statement : String) : List String :=
  let commas := (plain.toList.zipIdx.filter fun (c, _) => c == ',').map (·.2)
  let starts := 0 :: commas.map (· + 1)
  let ends := commas ++ [plain.length + 1]
  (starts.zip ends).map fun (i, j) => slice i j statement

def ofStatementGo : Nat → String → Option String → String → Result (Option (List String))
  | 0, _, _, _ => .ok none
  | fuel + 1, name, type, statement => do
    let name := replace ".addr" "" name
    let statement := afterLast ":" statement
    if !occursAsWord name statement then return none
    let plain := plainAssignments statement
    match count "=" plain, find? "=" plain with
    | 1, some e =>
      if (← placeOf name plain) < e then return none
      let right := drop (e + 1) statement
      if (callPart? right.toList).any fun c => has name (String.ofList c) then return none
      if ← isAccess type name right then return none
      match (split " " (take e statement)).filter (· ≠ "") with
      | [] => .error .outOfRange
      | words => if words.length ≤ 4 then return words.getLast?.map ([·]) else return none
    | 0, _ => return none
    | _, _ =>
      if count "," plain == 0 then return none
      let found ← (partsBetween plain statement).mapM (ofStatementGo fuel name type)
      let all := (found.filterMap id).flatten
      return if all.isEmpty then none else some all

/-- The names to which a statement assigns a variable of a type, or nothing if it assigns it to
none. Each part between commas is shorter than the statement, so its length bounds the depth. -/
def ofStatement (name : String) (type : Option String) (statement : String) : Result (Option (List String)) :=
  ofStatementGo (statement.length + 1) name type statement

end ParallelPatterns.Alias
