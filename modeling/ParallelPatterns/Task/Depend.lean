import ParallelPatterns.Task.Sharing

/-!
# Dependences of tasks

A clause for a dependence into a task needs a task before it with a dependence out of it on the same
variable, and the other way round. A variable with both becomes one that is read and written.
Clauses are filtered until nothing changes.
-/

namespace ParallelPatterns

abbrev UseLines := Table String (List DirectiveLine)

def UseLines.note (t : UseLines) (names : List String) (line : DirectiveLine) : UseLines :=
  names.foldl (fun t v => t.update v [] (· ++ [line])) t

namespace Graph

def lineNumberText (line : DirectiveLine) : Result String :=
  match Text.split ":" line.text with
  | _ :: number :: _ => .ok number
  | _ => .ok line.text

def unitsAt (g : Graph) (file : Int) (line : DirectiveLine) : Result (List Node) := do
  let number ← lineNumberText line
  g.units.filterM fun u => lineInRegion (toString file ++ ":" ++ number) u.start u.finish

def followsLines (g : Graph) (n : Node) (lines : List DirectiveLine) : Result Bool := do
  let units ← lines.mapM (g.unitsAt n.file)
  return units.flatten.any fun u => g.reachable n u [.successor, .child]

def precedesLines (g : Graph) (n : Node) (lines : List DirectiveLine) : Result Bool := do
  let units ← lines.mapM (g.unitsAt n.file)
  return units.flatten.any fun u => g.reachable u n [.successor, .child]

end Graph

namespace Planning

/-- Drops the names of a clause that no definition line makes valid. Tells whether a name was
dropped. -/
def dropInvalid (i : Nat) (c : TaskClause) (isValid : String → Planning Bool) : Planning Bool := do
  let names := (← task i).names c
  let rejected ← names.filterM fun v => do return !(← isValid (bareName v))
  let rejected := rejected.map bareName
  setNames i c (((← task i).names c).filter fun v => !rejected.contains (bareName v))
  return !rejected.isEmpty

/-- Runs a test on the definition lines of a variable up to the first that cannot be read. -/
def anyDefinition (lines : List (Option String)) (p : Option String → Planning Bool) : Planning Bool :=
  go lines false
where
  go : List (Option String) → Bool → Planning Bool
    | [], found => pure found
    | l :: ls, found => do
      match ← tryCatch (some <$> p l) fun e => if e.kind == .value then pure none else throw e with
      | some b => go ls (found || b)
      | none => pure found

def filterOneSide (i : Nat) (c : TaskClause) (lines : DefinitionLines) (f : Node) (uses : UseLines)
    (hasPartner : Graph → Node → List DirectiveLine → Result Bool) : Planning Bool := do
  dropInvalid i c fun v => do
    anyDefinition (← lift (lines.of v)) fun l => do
      if !(← lift (Graph.isDefinedIn f l)) then return false
      match uses.get? v with
      | none => return false
      | some ls =>
        let n ← node (← task i).node
        query fun g => hasPartner g n ls

/-- Keeps the dependences on both sides that have partners on both; one with a partner on one side
only becomes a dependence on that side. -/
def filterBothSides (i : Nat) (lines : DefinitionLines) (f : Node) (ins outs : UseLines) : Planning Bool := do
  dropInvalid i .dependInOut fun v => do
    anyDefinition (← lift (lines.of v)) fun l => do
      if !(← lift (Graph.isDefinedIn f l)) then return false
      match ins.get? v, outs.get? v with
      | some inLines, some outLines =>
        if !(inLines.length > 1 || outLines.length > 1) then return false
        let n ← node (← task i).node
        let prior ← query fun g => g.followsLines n outLines
        let later ← query fun g => g.precedesLines n inLines
        if prior && later then return true
        for c in (if prior then [TaskClause.dependIn] else if later then [.dependOut] else []) do
          addName i c v
          setNames i c (distinct ((← task i).names c))
        return false
      | some inLines, none => if inLines.length > 1 then throw .unknownKey else throw .unknownKey
      | none, _ => throw .unknownKey

def removeName (i : Nat) (c : TaskClause) (v : String) : Planning Unit := do
  if ((← task i).names c).contains v then changeNames i c (·.erase v) else throw .absentText

/-- Moves what is on both sides of a task to the dependences on both sides. Tells whether something
changed. -/
def joinSides (i : Nat) : Planning Bool := do
  let t ← task i
  let overlap := (t.names .dependIn).filter (t.names .dependOut).contains
  let mut changed := false
  for v in overlap do
    if !((← task i).names .dependInOut).contains v then changed := true
    removeName i .dependIn v
    removeName i .dependOut v
    addName i .dependInOut v
  setNames i .dependInOut (distinct ((← task i).names .dependInOut))
  for v in (← task i).names .dependInOut do
    for c in [TaskClause.dependIn, .dependOut] do
      if ((← task i).names c).contains v then
        removeName i c v
        changed := true
  return changed

def useLines (tasks : List Nat) : Planning (UseLines × UseLines) := do
  let ts ← tasks.mapM task
  let into := ts.foldl (fun (u : UseLines) t =>
    (u.note (t.names .dependIn) t.line).note (t.names .dependInOut) t.line) ∅
  let outOf := ts.foldl (fun (u : UseLines) t =>
    (u.note (t.names .dependOut) t.line).note (t.names .dependInOut) t.line) ∅
  return (into, outOf)

def filterDependOf (lines : DefinitionLines) (ins outs : UseLines) (changed : Bool) (i : Nat) :
    Planning Bool := do
  let n ← node (← task i).node
  let f ← query fun g => g.functionAbove n
  let changed ← if changed then pure true
    else filterOneSide i .dependIn lines f outs Graph.followsLines
  let changed ← if changed then pure true
    else filterOneSide i .dependOut lines f ins Graph.precedesLines
  let changed ← if changed then pure true else filterBothSides i lines f ins outs
  return (← joinSides i) || changed

def filterDependGo (lines : DefinitionLines) (tasks : List Nat) : Nat → Planning Unit
  | 0 => throw .endless
  | fuel + 1 => do
    let (ins, outs) ← useLines tasks
    if ← tasks.foldlM (fun changed i => filterDependOf lines ins outs changed i) false then
      filterDependGo lines tasks fuel

/-- Keeps the dependence clauses that make sense. Each round drops a name or moves it to both sides,
so the number of names bounds the rounds. -/
def filterDepend (lines : DefinitionLines) : Planning Unit := do
  let tasks ← numbersOf fun s => s.kind? == some .task || s.kind? == some .taskloop
  let ts ← tasks.mapM task
  let names := ts.map fun t =>
    (t.names .dependIn).length + (t.names .dependOut).length + (t.names .dependInOut).length
  filterDependGo lines tasks (4 * (total names + 2) * (tasks.length + 2))

def dropRepeatedNames : Planning Unit := do
  for i in ← numbersOf fun s => s.task?.isSome do
    for c in [TaskClause.dependIn, .dependOut, .dependInOut] do
      setNames i c (distinct ((← task i).names c))

end Planning

end ParallelPatterns
