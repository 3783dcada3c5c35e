import ParallelPatterns.Graph.Line
import ParallelPatterns.Markup.Edit

/-!
# The lines of a phase of a unit

A phase of a unit lists the lines it touches, separated by commas, together with their count. Lines
are removed and added as texts: a line is taken out together with the comma behind it.
-/

namespace ParallelPatterns

open Text

structure PhaseLines where
  count : Option String
  lines : Option String
  deriving DecidableEq, Repr, Inhabited

namespace PhaseLines

def ofElement (m : Markup) : PhaseLines := { count := m.attribute? "count", lines := m.text? }

def changeCount (p : PhaseLines) (step : Int) : Result PhaseLines := do
  let c ← p.count.getDM (.error .wrongSort)
  return { p with count := some (toString ((← number c) + step)) }

def without (line lines : String) : String := replace line "" (replace (line ++ ",") "" lines)

variable (unit : Markup)

def dropCallLine (p : PhaseLines) : Result PhaseLines := do
  let line := (← (← unit.child "callsNode").child "nodeCalled").attribute? "atLine"
  match line, p.lines with
  | some l, some s =>
    if !has l s then return p
    match p.count with
    | none => return { lines := some l, count := some "1" }
    | some _ => changeCount { p with lines := some (without l s) } (-1)
  | _, _ => return { lines := line, count := some "1" }

def isInside (line : String) : Result Bool := do
  let _ ← parseId line
  let first ← unit.attributeOf "startsAtLine"
  let _ ← parseId first
  lineInRegion line first (← unit.attributeOf "endsAtLine")

def withoutLastComma (s : String) : String := if ends "," s then dropEnd 1 s else s

def withoutFirstComma (s : String) : String := if begins "," s then drop 1 s else s

def keepInside (p : PhaseLines) : Result PhaseLines :=
  match p.lines with
  | none => .ok p
  | some s => (split "," s).foldlM (fun p line => do
      if ← isInside unit line then return p
      let rest := if line == "" then p.lines.getD "" else without line (p.lines.getD "")
      changeCount { p with lines := some (withoutLastComma rest) } (-1)) p

def addLastLine (p : PhaseLines) : Result PhaseLines := do
  let tidy (p : PhaseLines) : PhaseLines := { p with lines := p.lines.map (replace ",," ",") }
  match unit.attribute? "endsAtLine", p.lines with
  | some l, some s =>
    if has l s then return tidy p
    let added := withoutFirstComma (s ++ "," ++ l)
    match p.count with
    | none => return tidy { lines := some l, count := some "1" }
    | some _ => return tidy (← changeCount { p with lines := some added } 1)
  | none, _ => throw .missingProperty
  | some l, none => return tidy { lines := some l, count := some "1" }

def addLinesGo (unit : Markup) : Nat → String → PhaseLines → Result PhaseLines
  | 0, _, p => .ok p
  | fuel + 1, line, p => do
    if !(← isInside unit line) then return p
    let s ← p.lines.getDM (throw .wrongSort)
    let p ← if has line s then pure p
      else changeCount { p with lines := some (withoutLastComma (line ++ "," ++ s)) } 1
    let file := take (((findLast? ":" line).map (· + 1)).getD 0) line
    addLinesGo unit fuel (file ++ toString ((← number (afterLast ":" line)) + 1)) p

def addAllLines (p : PhaseLines) : Result PhaseLines := do
  let first ← unit.attributeOf "startsAtLine"
  let (_, i) ← parseId first
  let last ← unit.attributeOf "endsAtLine"
  let (_, j) ← parseId last
  let p ← addLinesGo unit ((j - i).toNat + 2) first p
  return { p with lines := some (replace ",," "," (← p.lines.getDM (throw .missingProperty))) }

end PhaseLines

end ParallelPatterns
