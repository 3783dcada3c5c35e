import ParallelPatterns.Files
import ParallelPatterns.Graph.Node
import ParallelPatterns.Source.Demangle

/-!
# Calls in the source

A call is looked up in the source line by line: lines are added until the brackets of the text are
balanced, no keyword stands in front of the first bracket, and, if a function is named, its name
occurs. The arguments of a call are the names that stand between its brackets; an argument that is
an expression counts as the pointer that occurs in it.
-/

namespace ParallelPatterns.Source

open Text

/-- The line at a place; places below zero count from the end. -/
def lineAt (lines : List String) (i : Int) : Result String :=
  let place := if i < 0 then i + lines.length else i
  if place < 0 then .error .outOfRange
  else lines[place.toNat]?.getDM (.error .outOfRange)

variable (s : String)

def wordBeforeBracket : Result (Option String) :=
  match cut "(" s with
  | (_, none) => .ok none
  | (before, some _) =>
    some <$> ((split " " before).filter (· ≠ "")).getLast?.getDM (.error .outOfRange)

def isBracketKeyword (word : Option String) : Bool := word.any (["while", "for", "if"].contains ·)

/-- Cuts off what ends before the first opening bracket. -/
def cutClosed : String :=
  match find? ")" s, find? "(" s with
  | some i, some j => if i < j then drop (i + 1) s else s
  | _, _ => s

def cutUnopened : String :=
  match find? ")" s, find? "(" s with
  | some i, none => drop (i + 1) s
  | _, _ => s

def isComplete : Result Bool := do
  let opened := count "(" s
  let closed := count ")" s
  if opened > closed || opened < 1 || closed < 1 then return false
  return !isBracketKeyword (← wordBeforeBracket s)

def callTextGo (lines : List String) (name : Option String) : Nat → Int → Bool → String → Result String
  | 0, _, _, _ => .error .outOfRange
  | fuel + 1, next, found, s => do
    if (← isComplete s) && found then return s
    let s := cutClosed s
    let s :=
      if isBracketKeyword (← wordBeforeBracket s) then ((cut "(" s).2).getD s else s
    let found := found || name.all (has · s)
    callTextGo lines name fuel (next + 1) found (s ++ (← lineAt lines next))

def onlyFirstGo (name : String) : Nat → String → String
  | 0, s => s
  | fuel + 1, s => if count name s > 1 then onlyFirstGo name fuel (beforeLast name s) else s

def callText (files : Files) (paths : Table String String) (line : Int) (file : String)
    (name : Option String) : Result String := do
  let path ← (paths.get? file).getDM (.error .unknownKey)
  let lines := feedLines (← files.read path)
  let first := cutUnopened (cutClosed (← lineAt lines (line - 1)))
  let bound := lines.length + line.natAbs + 2
  let s ← callTextGo lines name bound line name.isNone first
  let s := replace "\n" "" s
  match name with
  | none => return s
  | some n => return onlyFirstGo n s.length s

/-- Cuts a text behind closing brackets from its end, until it has as many opening as closing
ones. -/
def balancedGo : Nat → String → String
  | 0, s => s
  | fuel + 1, s =>
    if count "(" s == count ")" s then s
    else
      let s := dropEnd 1 s
      balancedGo fuel (match findLast? ")" s with
        | some i => take (i + 1) s
        | none => "")

def argumentText : String :=
  let s := (cut ";" (replace "\t" "" s)).1
  let s := match find? "(" s with
    | some i => drop i s
    | none => s
  let s := match findLast? ")" s with
    | some i => take (i + 1) s
    | none => s
  dropEnd 1 (drop 1 (balancedGo (s.length + 1) s))

/-- A name without the mark of a copied argument. -/
def plainName (name : String) : String := replace ".addr" "" name

/-- The parts of an expression between operators and brackets, without blanks. -/
def operands : List String :=
  let marked := ["+", "-", "/", "*", "(", ")"].foldl (fun s op => replace op "$$" s) s
  (split "$$" marked).map (replace " " "")

def isExpression : Bool := ["+", "-", "*", "/", "(", ")"].any fun op => has op s

def namedTypes (n : Node) : Result (List (String × Option String)) := do
  let b ← n.unit?.getDM (.error .missingProperty)
  (b.locals ++ b.globals).mapM fun v => do
    return (plainName (← v.name.getDM (.error .missingProperty)), v.type)

def pointerAmong (known : List (String × Option String)) : List String → Result (Option String)
  | [] => .ok none
  | x :: rest => do
    let isPointer ← (known.filter fun k => k.1 == x).anyM fun (_, type) => do
      return has "*" (← type.getDM (.error .wrongSort))
    if isPointer then return some x else pointerAmong known rest

def argumentName (n : Node) (s : String) : Result (Option String) := do
  if isExpression s then
    let known ← namedTypes n
    pointerAmong known ((operands s).filter fun x => known.any fun k => k.1 == x)
  else return some (replace " " "" s)

/-- The name of the called function and the names that are its arguments, in a text with a call made
by a unit. If the name cannot be told, or does not occur, there is neither. -/
def callArguments (d : Demangler) (text : String) (mangled : Option String) (n : Node) :
    Result (Option String × List (Option String)) := do
  match mangled.map fun m => d.sourceName (cut " " m).1 with
  | some (.ok name) =>
    match find? name text with
    | none => return (none, [])
    | some i =>
      let args := split "," (argumentText (drop (i + name.length) text))
      return (some name, ← args.mapM (argumentName n))
  | _ => return (none, [])

end ParallelPatterns.Source
