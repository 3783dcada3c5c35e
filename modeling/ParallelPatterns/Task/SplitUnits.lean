import ParallelPatterns.Input.UnitFile
import ParallelPatterns.Task.PhaseLines

/-!
# Units with one recursive call each

A unit that makes several recursive calls is split before an analysis of tasks: as long as it has a
recursive call that matches one of its called nodes, that call moves to a new unit in front of it.
The new unit keeps the old identifier and ends where the old unit began; the old unit gets a new
identifier, begins at its next call, and becomes a child of the function around it.
-/

namespace ParallelPatterns.SplitUnits

open Text

/-- Where a recursive call and its called node stand: the list of calls, and the place in it. -/
structure CallPlace where
  list : Nat
  place : Nat

def matchingPlace? (calls : Markup) : Nat → List Markup → Result (Option Nat)
  | _, [] => .ok none
  | i, recursive :: rest => do
    match calls.childrenOf "nodeCalled" with
    | [] => return none
    | called =>
      let c ← called[i]?.getDM (.error .outOfRange)
      if has ((c.attribute? "atLine").getD "None") recursive.shown then return some i
      else matchingPlace? calls (i + 1) rest

variable (unit : Markup)

def matchingCall? : Result (Option CallPlace) := do
  let lists := unit.childrenOf "callsNode"
  if lists.isEmpty then throw .missingProperty
  let places ← lists.mapM fun c => matchingPlace? c 0 (c.childrenOf "recursiveFunctionCall")
  return (places.zipIdx.filterMap fun (p, list) => p.map fun place => ⟨list, place⟩).getLast?

def part (sep s : String) (i : Nat) : Result String :=
  (split sep s)[i]?.getDM (.error .outOfRange)

/-- Has the unit at least two recursive calls within its own lines? Line numbers are compared as
texts. -/
def hasSeveralCalls : Result Bool := do
  let first ← unit.attributeOf "startsAtLine"
  let last ← unit.attributeOf "endsAtLine"
  let file ← part ":" first 0
  if file ≠ (← part ":" last 0) then throw .nodeSpansFiles
  let first ← part ":" first 1
  let last ← part ":" last 1
  let lists := unit.childrenOf "callsNode"
  if lists.isEmpty then throw .missingProperty
  let recorded := lists.flatMap (·.childrenOf "recursiveFunctionCall")
  let calls := recorded.flatMap fun m => (split "," m.shown).filter (· ≠ "")
  let within ← calls.filterM fun call => do
    let line ← part " " call 1
    let number ← part ":" line 1
    return (← part ":" line 0) == file && !(number < first) && !(last < number)
  return within.length ≥ 2

def lineNumber (s : String) : Result Int :=
  number (match find? ":" s with
    | some i => drop (i + 1) s
    | none => s)

def freshId (id : Option String) (used : List (Option String)) : Result String := do
  let id ← id.getDM (.error .missingProperty)
  let i ← (find? ":" id).getDM (.error .absentText)
  let file := take i id
  let ids ← used.mapM fun u => u.getDM (.error .missingProperty)
  let numbers ← (ids.filter (begins (file ++ ":"))).mapM fun u => number (drop (i + 1) u)
  return file ++ ":" ++ toString ((← numbers.max?.getDM (throw .notANumber)) + 1)

def calledNodes : List Markup := (unit.childrenOf "callsNode").flatMap (·.childrenOf "nodeCalled")

def nextStart (first : String) : Result String := do
  let lines := (calledNodes unit).map (·.attribute? "atLine")
  let start ← lines.foldlM (fun (best : Option String) line =>
    match line with
    | none => .error .missingProperty
    | some "" => .ok best
    | some l => do
      if (← lineNumber l) ≥ (← lineNumber first) + 1 then
        match best with
        | none => return some l
        | some b => return if (← lineNumber l) < (← lineNumber b) then some l else best
      else return best) none
  match start with
  | some l => return l
  | none => return take ((find? ":" first).getD 0) first ++ ":" ++ toString ((← lineNumber first) + 1)

def modifyText (tag : String) (f : Option String → Result String) (m : Markup) : Result Markup := do
  let c ← m.child tag
  return m.modifyChild tag 0 (Markup.setText (← f c.text?))

def addCalled (s id : String) : String :=
  if has id s then s
  else PhaseLines.withoutLastComma (PhaseLines.withoutFirstComma (s ++ "," ++ id))

def calledChildren : Result String := do
  let ids ← (calledNodes unit).mapM fun c => c.text?.getDM (.error .wrongSort)
  return ids.foldl addCalled ""

def dropReturns : Result Markup := do
  let returns ← unit.child "returnInstructions"
  if (← number (← (returns.attribute? "count").getDM (throw .wrongSort))) == 0 then return unit
  let s ← returns.text?.getDM (throw .missingProperty)
  let kept ← (split "," s).filterM (PhaseLines.isInside unit)
  return unit.modifyChild "returnInstructions" 0 fun m =>
    (m.setText (",".intercalate kept)).setAttribute "count" (toString kept.length)

def isNode (m : Markup) : Bool := m.isElement && m.tag == "Node"

/-- Does a function hold the lines of a unit? -/
def isAround (unit m : Markup) : Result Bool := do
  let first ← unit.attributeOf "startsAtLine"
  let last ← unit.attributeOf "endsAtLine"
  if !(isNode m && m.attribute? "type" == some "1") then return false
  if ← PhaseLines.isInside m first then PhaseLines.isInside m last else return false

def addToFunction (unit : Markup) (id : String) : List Markup → Result (List Markup)
  | [] => .ok []
  | m :: ms => do
    if ← isAround unit m then
      let changed ← modifyText "childrenNodes" (fun s => do
        return PhaseLines.withoutFirstComma ((← s.getDM (.error .wrongSort)) ++ "," ++ id)) m
      return changed :: ms
    else return m :: (← addToFunction unit id ms)

def newUnit (rest : Markup) (call called : Markup) (nextId first : String) : Result Markup := do
  let _ ← rest.child "callsNode"
  let _ ← rest.child "successors"
  let unit := rest.modifyChild "callsNode" 0 fun m => m.clear.append [called, call]
  let next : Markup := .element "CU" [] [.text nextId]
  let unit := unit.modifyChild "successors" 0 fun m => m.clear.append [next]
  let children ← calledChildren unit
  let unit ← modifyText "childrenNodes" (fun _ => .ok children) unit
  return unit.setAttribute "endsAtLine" first

/-- What is left of the old unit: without the moved node among its children, from its next call
on. -/
def restOfUnit (rest : Markup) (called : Markup) (id first : String) : Result Markup := do
  let unit ← modifyText "childrenNodes" (fun s =>
    match s, called.text? with
    | none, _ => .error .missingProperty
    | _, none => .error .wrongSort
    | some s, some c => .ok (PhaseLines.without c s)) (rest.setAttribute "id" id)
  return unit.setAttribute "startsAtLine" (← nextStart unit first)

/-- The state of splitting: the parts before and after the unit at hand, and the identifiers in
use. -/
structure Around where
  before : List Markup
  after : List Markup
  used : List (Option String)

/-- The part with a tag at a place. -/
def partAt (unit : Markup) (p : CallPlace) (tag : String) : Markup :=
  ((((unit.childrenOf "callsNode")[p.list]?).getD .remark).childrenOf tag)[p.place]?.getD .remark

def withoutCall (unit : Markup) (p : CallPlace) : Markup :=
  unit.modifyChild "callsNode" p.list fun m =>
    (m.removeChild "recursiveFunctionCall" p.place).removeChild "nodeCalled" p.place

/-- One call moves to a new unit in front of the unit at hand. -/
def moveCall (unit : Markup) (a : Around) : Result (Markup × Around) := do
  let p ← (← matchingCall? unit).getDM (throw .noMatchingCall)
  let called := partAt unit p "nodeCalled"
  let first ← unit.attributeOf "startsAtLine"
  let id ← freshId (unit.attribute? "id") a.used
  let created ← newUnit (withoutCall unit p) (partAt unit p "recursiveFunctionCall") called id first
  let left ← restOfUnit (withoutCall unit p) called id first
  let created ← dropReturns created
  let left ← dropReturns left
  let all ← addToFunction left id (a.before ++ created :: left :: a.after)
  return (left, {
    before := all.take (a.before.length + 1), after := all.drop (a.before.length + 2)
    used := addNew a.used (some id) })

def splitGo : Nat → Bool → Markup → Around → Result (Markup × Around)
  | 0, _, unit, a => .ok (unit, a)
  | fuel + 1, remaining, unit, a => do
    if !isNode unit || unit.attribute? "type" ≠ some "0" then return (unit, a)
    let several ← hasSeveralCalls unit
    if !(several || remaining) then return (unit, a)
    let (left, a) ← moveCall unit a
    match ← matchingCall? left with
    | none => return (left, a)
    | some _ => splitGo fuel true left a

def callCount : Nat :=
  total ((unit.childrenOf "callsNode").map fun c => (c.childrenOf "recursiveFunctionCall").length)

def splitAll : Nat → Around → Result (List Markup)
  | 0, a => .ok (a.before ++ a.after)
  | fuel + 1, a =>
    match a.after with
    | [] => .ok a.before
    | unit :: rest => do
      let (unit, a) ← splitGo (callCount unit + 1) false unit { a with after := rest }
      splitAll fuel { a with before := a.before ++ [unit] }

def ofDescription (text : String) : Result Markup := do
  let m ← UnitFile.described text
  let ids := (m.childrenOf "Node").map (·.attribute? "id")
  let parts ← splitAll m.content.length { before := [], after := m.content, used := distinct ids }
  return .element m.tag m.attributes parts

end ParallelPatterns.SplitUnits
