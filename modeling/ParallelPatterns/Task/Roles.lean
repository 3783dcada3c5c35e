import ParallelPatterns.Dataflow.Variables
import ParallelPatterns.Graph.Analysis

/-!
# The roles of nodes in a division of work

Below a node, a child that depends on another child becomes a worker, and one that depends on
several, or in several ways on one, becomes a barrier. Two barriers that are not linked with each
other may run side by side and become barrier workers. The roles give a forest of tasks: workers and
barriers are tasks below the task around them, while a fork begins a tree of its own.
-/

namespace ParallelPatterns

def setRole (id : NodeId) (role : WorkRole) : Analysis Unit :=
  Analysis.modifyNode id fun n => { n with role }

def roleOf (id : NodeId) : Analysis WorkRole := do
  return (((← Analysis.graph).node? id).map (·.role)).getD .none

def Graph.readsRepeatedly (g : Graph) (source target : Node) : Bool :=
  let hits := (g.outEdges source.id).filter fun e =>
    e.dep.isKind .readAfterWrite && (g.node? e.target).any (·.alike target)
  let targets := hits.map (·.target)
  targets.any fun t => targets.count t > 1

def noteDependent (other node : Node) : Analysis Unit := do
  let g ← Analysis.graph
  if g.depends other node then
    if (← roleOf other.id) == .worker then setRole other.id .barrier
    else setRole other.id (if g.readsRepeatedly other node then .barrier else .worker)

def Graph.isLinked (g : Graph) (a b : Node) : Bool :=
  b.among (g.targets (g.outEdges a.id)) || b.among (g.sources (g.inEdges a.id))

def pairBarriers (n : Node) : List Node → Analysis Unit
  | [] => pure ()
  | m :: rest => do
    if (← roleOf m.id) == .barrier && !n.alike m then
      if (← Analysis.graph).isLinked n m then return
      setRole n.id .barrierWorker
      setRole m.id .barrierWorker
    pairBarriers n rest

def detectRoles (main : Node) : Analysis Unit := do
  let children := (← Analysis.graph).childrenOrCalled main.id
  for n in children do
    let role ← roleOf n.id
    if role == .none || role == .root then setRole n.id .fork
    for other in children.eraseP (fun m => m.alike n) do
      noteDependent other n
  for n in children do
    if (← roleOf n.id) == .barrier then pairBarriers n children

def detectAllRoles : Analysis Unit := do
  for n in (← Analysis.graph).allNodes do
    if n.kind ≠ .dummy then
      if !((← Analysis.graph).childrenOrCalled n.id).isEmpty then detectRoles n
      if (← roleOf n.id) == .none then setRole n.id .root

inductive WorkTask where
  | mk (node : NodeId) (first last : LineId) (role : WorkRole) (children : List WorkTask)

instance : Inhabited WorkTask := ⟨.mk "" "" "" .none []⟩

namespace WorkTask

def ofNode (n : Node) (children : List WorkTask) : WorkTask := mk n.id n.start n.finish n.role children

/-- The tasks found below a node: those that belong to the task around it, and the forks. -/
structure Found where
  below : List WorkTask := []
  forks : List WorkTask := []
  entered : List Node := []

def unknownLine : String := "16383"

def collectGo (g : Graph) : Nat → Node → List Node → Result Found
  | 0, _, _ => .error .endless
  | fuel + 1, n, entered =>
    if n.isFunction && n.among entered then .ok { entered }
    else
      let entered := if n.isFunction then entered ++ [n] else entered
      (g.childrenOrCalled n.id).foldlM (fun (f : Found) c => do
        let sub ← collectGo g fuel c f.entered
        let (below, forks) :=
          if c.role == .barrier || c.role == .barrierWorker || c.role == .worker then
            (f.below ++ [ofNode c sub.below], f.forks ++ sub.forks)
          else if c.role == .fork && !Text.ends unknownLine c.start then
            (f.below, f.forks ++ ofNode c sub.below :: sub.forks)
          else (f.below ++ sub.below, f.forks ++ sub.forks)
        return { below, forks, entered := sub.entered }) { entered }

def forest (g : Graph) (root : Node) : Result (List WorkTask) := do
  let f ← collectGo g (g.size + 2) root []
  return ofNode root f.below :: f.forks

end WorkTask

/-- Several nodes that run as one task. -/
structure JoinedTask where
  nodes : List NodeId
  first : LineId
  last : LineId
  role : WorkRole

namespace JoinedTask

def ofNode (n : Node) : JoinedTask := { nodes := [n.id], first := n.start, last := n.finish, role := n.role }

def isNear (a b : JoinedTask) : Result Bool := do
  let (_, last) ← parseId a.last
  let (_, first) ← parseId b.first
  return last == first || last + 1 == first || last + 2 == first

def join (a b : JoinedTask) : JoinedTask :=
  { a with
    nodes := a.nodes ++ b.nodes, last := b.last
    role := if b.role == .barrierWorker then .barrierWorker else .worker }

end JoinedTask

def widenLoops : Analysis Unit := do
  for l in (← Analysis.graph).loops do
    for c in (← Analysis.graph).childrenOrCalled l.id do
      Analysis.modifyNode l.id fun n =>
        if n.file == c.file then
          { n with startLine := min n.startLine c.startLine, endLine := max n.endLine c.endLine }
        else n

end ParallelPatterns
