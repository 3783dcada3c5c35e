import ParallelPatterns.Input.CallDependences
import ParallelPatterns.Source.Program
import ParallelPatterns.Task.Ancestry

/-!
# What a call does to its arguments

Whether a called function writes its arguments is told by the dependences between calls that were
recorded inside of it, by the calls that it makes in turn, and by the aliases of its arguments: an
argument with an alias that takes part in a dependence is guessed to be written.
-/

namespace ParallelPatterns

/-- Whether an argument is written, and whether that is only guessed. -/
structure Effect where
  written : Bool := false
  guessed : Bool := false
  deriving DecidableEq, Repr, Inhabited

structure ArgumentEffect where
  name : String
  effect : Effect
  deriving DecidableEq, Repr, Inhabited

/-- What is known of a program before its calls are looked at. -/
structure EffectContext where
  graph : Graph
  program : Program
  dependences : CallDependences
  aliases : Table String (List (String × String))

/-- The functions that have been looked at, and what they do to their arguments. -/
structure EffectState where
  visited : List Node := []
  known : Table (Option String) (List Effect) := ∅
  deriving Inhabited

abbrev EffectSearch := StateT EffectState Result

/-- Which lines of calls are wanted, relative to a given line. -/
inductive LineTest where
  | equal
  | after
  | fromOn
  deriving DecidableEq, Repr

namespace LineTest

def ofMarks (equal greater : Bool) : LineTest :=
  match equal, greater with
  | true, false => .equal
  | false, true => .after
  | _, _ => .fromOn

def holds (t : LineTest) (line bound : Int) : Bool :=
  match t with
  | .equal => line == bound
  | .after => line > bound
  | .fromOn => line ≥ bound

end LineTest

/-- A call whose effects are asked for. -/
structure CallQuery where
  position : LineId
  caller : Node
  bound : Int
  test : LineTest
  /-- The called node, or else the name of the called function. -/
  callee : Option NodeId := none
  name : Option String := none

namespace EffectContext

variable (c : EffectContext)

def positionPart (position : LineId) (i : Nat) : Result String :=
  (Text.split ":" position)[i]?.getDM (.error .outOfRange)

def calledFunction (q : CallQuery) : Result (Option (Node × String)) := do
  match q.callee, q.name with
  | none, none => throw .insufficientInformation
  | some id, some name => return some (← c.graph.node id, name)
  | some id, none =>
    let n ← c.graph.node id
    return some (n, ← n.name.getDM (throw .noCalledFunction))
  | none, some name =>
    let line ← number (← positionPart q.position 1)
    if !q.test.holds line q.bound then return none
    return ((c.graph.functions.filter fun f => f.name == some name).getLast?).map fun f => (f, name)

def argumentsOf (f : Node) : Result (List Variable) :=
  f.args?.getDM (.error .missingProperty)

def recorded (f : Node) : Result (List Effect) := do
  let inside ← c.dependences.flow.filterM fun d => lineInRegion d.line f.start f.finish
  (← argumentsOf f).mapM fun v =>
    match v.name with
    | none => if inside.isEmpty then .ok {} else .error .missingProperty
    | some name =>
      .ok { written := inside.any fun d => Source.plainName d.var == Source.plainName name }

def isInside (f n : Node) : Result Bool := do
  return (← lineInRegion n.start f.start f.finish) && (← lineInRegion n.finish f.start f.finish)

/-- Collects the nodes below a function that lie inside of it. `queue` ends with the next node. -/
def bodyGo (g : Graph) (f : Node) : Nat → List Node → List Node → List Node → Result (List Node)
  | 0, _, _, body => .ok body
  | fuel + 1, queue, visited, body =>
    match queue.reverse with
    | [] => .ok body
    | n :: rest => do
      let queue := rest.reverse
      let visited := visited ++ [n]
      let body := if (← isInside f n) && !n.among body then body ++ [n] else body
      bodyGo g f fuel (Graph.enqueue visited queue (g.childrenOrCalled n.id)) visited body

def body (g : Graph) (f : Node) : Result (List Node) :=
  bodyGo g f (2 * (g.edgeCount + 1)) (g.childrenOrCalled f.id) [] []

end EffectContext

/-- Collects the nodes of a queue and below it that lie inside of a function. Only these are
remembered, so nothing bounds the number of turns: the result is `none` if there is no last one. -/
def Graph.insideGo (g : Graph) (f : Node) : List Node → List Node → Option (Result (List Node))
  | [], inside => some (.ok inside)
  | n :: queue, inside =>
    match EffectContext.isInside f n with
    | .error e => some (.error e)
    | .ok isIn =>
      let inside := if isIn then inside ++ [n] else inside
      g |>.insideGo f (enqueue inside queue (g.childrenOrCalled n.id)) inside
partial_fixpoint

namespace EffectContext

variable (c : EffectContext)

def isUsedInside (g : Graph) (f : Node) (name : String) : Result Bool := do
  let inside ← (g.insideGo f [f] []).getD (.error .endless)
  return inside.any fun n =>
    ((g.inData n.id ++ g.outData n.id).filterMap fun e => e.dep.var).any fun v => Source.plainName v == name

def addEffects (args : List (Option String × Effect)) (given : List ArgumentEffect) :
    List (Option String × Effect) :=
  given.foldl (fun args a => args.map fun (name, e) =>
    if name == some a.name then
      (name, ⟨e.written || a.effect.written, a.effect.guessed || e.guessed⟩) else (name, e)) args

def effectsOfBody (search : CallQuery → EffectSearch (Option (List ArgumentEffect))) (f : Node) :
    EffectSearch (List Effect) := do
  modify fun s => { s with visited := s.visited ++ [f] }
  let nodes ← body c.graph f
  let args := (← argumentsOf f).map fun v => (v.name, ({} : Effect))
  let calls := nodes.flatMap fun n => (c.graph.childrenOrCalledOf n.id [.function]).map fun g => (n, g)
  let args ← calls.foldlM (fun args (n, callee) => do
    if n.among (← get).visited then return args
    let given ← search {
      position := n.start, caller := n, bound := n.startLine, test := .fromOn, name := callee.name }
    return addEffects args (given.getD [])) args
  let aliases := (f.name.bind c.aliases.get?).getD []
  let args ← aliases.foldlM (fun (args : List (Option String × Effect)) (name, other) => do
    if ← isUsedInside c.graph f other then
      return args.map fun (n, e) => if n == some name && !e.written then (n, ⟨true, true⟩) else (n, e)
    else return args) args
  return args.map (·.2)

/-- The names that a call gives to a function, with what the function does to them. There are none
if the call cannot be found or does not fit the function. -/
def effectsGo : Nat → CallQuery → EffectSearch (Option (List ArgumentEffect))
  | 0, _ => throw .endless
  | fuel + 1, q => do
    match ← c.calledFunction q with
    | none => return none
    | some (f, name) =>
      let direct ← c.recorded f
      modify fun s => { s with known := s.known.insertNew f.name direct }
      match Text.split ":" q.position with
      | file :: line :: _ =>
        let line ← number line
        let source ← c.program.demangler.sourceName name
        match ← c.program.callText? line file (some source) with
        | none => return none
        | some text =>
          let (_, given) ← Source.callArguments c.program.demangler text (some name) q.caller
          let inner ←
            if f.among (← get).visited then pure ((← get).known.getD f.name [])
            else do
              let inner ← c.effectsOfBody (effectsGo fuel) f
              modify fun s => { s with known := s.known.insert f.name inner }
              pure inner
          if direct.length ≠ given.length then return none
          let effects := if direct.length == inner.length
            then direct.zipWith (fun d i => ⟨d.written || i.written, i.guessed⟩) inner
            else direct
          return some ((given.zip effects).filterMap fun (arg, e) => arg.map fun a => ⟨a, e⟩)
      | _ => return none

def effects (q : CallQuery) : EffectSearch (Option (List ArgumentEffect)) :=
  c.effectsGo (c.graph.size + 2) q

end EffectContext

end ParallelPatterns
