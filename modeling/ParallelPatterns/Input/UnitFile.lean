import ParallelPatterns.Graph.Node
import ParallelPatterns.Markup.Reader

/-!
# The description of a program's units

The document that lists the units, loops, functions and placeholders of a program. Reading it gives
a record for every node, and for every source line the units that read or write on it. Placeholders
whose name and argument types are those of a known function stand for that function.
-/

namespace ParallelPatterns

/-- A call that a node's record lists. -/
structure CalledRecord where
  callee : Option String
  line : Option String
  deriving DecidableEq, Repr, Inhabited

structure NodeRecord where
  id : Option String
  type : Option String
  name : Option String
  element : Markup
  children : List String
  called : Option (List CalledRecord)
  deriving Inhabited

/-- What the description of a program says. -/
structure UnitFile where
  records : List NodeRecord := []
  readers : Table LineId (List NodeId) := ∅
  writers : Table LineId (List NodeId) := ∅
  deriving Inhabited

namespace UnitFile

/-- The document inside the description: the lines of the outermost element are replaced. -/
def document (text : String) : String :=
  let keeps (line : String) : Bool :=
    let line := Text.trimEnd line
    !(Text.ends "</Nodes>" line || Text.ends "<Nodes>" line)
  "<Nodes>" ++ String.join ((Text.feedLines text).filter keeps) ++ "</Nodes>"

def recordOf (m : Markup) : Result NodeRecord := do
  let children ← m.child "childrenNodes"
  return {
    id := m.attribute? "id"
    type := m.attribute? "type"
    name := m.attribute? "name"
    element := m
    children := if children.isFilled then Text.split "," children.shown else []
    called := (m.child? "callsNode").bind fun c =>
      if c.hasChild "nodeCalled" then
        some ((c.childrenOf "nodeCalled").map fun v => ⟨v.text?, v.attribute? "atLine"⟩)
      else none }

def noteLines (t : Table LineId (List NodeId)) (lines : List LineId) (id : NodeId) :
    Table LineId (List NodeId) :=
  lines.foldl (fun t l => t.update l [] fun ids => addNew ids id) t

/-- Adds the element of a node. Of several nodes with one identifier the first is kept, while the
lines of all of them count. -/
def add (u : UnitFile) (m : Markup) : Result UnitFile := do
  let r ← recordOf m
  let mut u := u
  if r.type == some "0" then
    let written ← m.child "writePhaseLines"
    let read ← m.child "readPhaseLines"
    let id := r.id.getD ""
    u := { u with
      writers := noteLines u.writers (Text.split "," written.shown) id
      readers := noteLines u.readers (Text.split "," read.shown) id }
  if u.records.any (fun o => o.id == r.id) then return u
  return { u with records := u.records ++ [r] }

def signature? (r : NodeRecord) : Result (Option String) := do
  let arguments ← r.element.child "funcArguments"
  let args := arguments.childrenOf "arg"
  if args.isEmpty then return none
  match r.name, args.mapM (·.attribute? "type") with
  | some name, some types => return some (name ++ String.join types)
  | _, _ => .error .wrongSort

def signatures (rs : List NodeRecord) : Result (Table String String × Table String (List String)) :=
  rs.foldlM (fun (functions, dummies) r => do
    if r.type == some "3" || r.type == some "1" then
      match ← signature? r, r.id with
      | some s, some id =>
        if r.type == some "3" then return (functions, dummies.update s [] (· ++ [id]))
        else return (functions.insert s id, dummies)
      | _, _ => return (functions, dummies)
    else return (functions, dummies)) (∅, ∅)

def dummyTargets (functions : Table String String) (dummies : Table String (List String)) :
    Table String String :=
  functions.entries.foldl (fun t (s, id) =>
    (dummies.getD s []).foldl (fun t d => t.insert d id) t) ∅

/-- Puts functions in the place of placeholders among the children and calls of a node. A replaced
call no longer has a line. -/
def replaceDummies (targets : Table String String) (r : NodeRecord) : Result NodeRecord := do
  if r.children.isEmpty then return r
  let children := r.children.map fun c => (targets.get? c).getD c
  if r.element.hasChild "callsNode" then
    let calls ← r.called.getDM (.error .missingProperty)
    let replace (c : CalledRecord) : CalledRecord :=
      match targets.get? (c.callee.getD "") with
      | some f => ⟨some f, none⟩
      | none => c
    return { r with children, called := some (calls.map replace) }
  else return { r with children }

def resolveDummies (rs : List NodeRecord) : Result (List NodeRecord) := do
  let (functions, dummies) ← signatures rs
  let targets := dummyTargets functions dummies
  let kept := rs.filter fun r => !r.id.any targets.contains
  kept.mapM (replaceDummies targets)

def described (text : String) : Result Markup := do
  let m ← Markup.parse (document text)
  if m.hasChild "Node" then .ok m else .error .missingProperty

def ofNodes (earlier : UnitFile) (nodes : List Markup) : Result UnitFile := do
  let u ← nodes.foldlM add { earlier with records := [] }
  return { u with records := ← resolveDummies u.records }

def parse (earlier : UnitFile) (text : String) : Result UnitFile := do
  ofNodes earlier ((← described text).childrenOf "Node")

end UnitFile

end ParallelPatterns
