import ParallelPatterns.Dataflow.TaskVariables
import ParallelPatterns.Pattern.Basic

/-!
# Geometric decompositions

A function all of whose loops are do-all loops or reductions can be split into tasks that each work
on a chunk of the iterations. The number of tasks follows from the least iteration count and the
workload.
-/

namespace ParallelPatterns

/-- A function that can be split into chunks. -/
structure GeometricPattern where
  site : PatternSite
  doAllLoops : List NodeId
  reductionLoops : List NodeId
  leastIterations : Int
  tasks : Int
  vars : TaskVariables
  deriving Inhabited

namespace GeometricPattern

def directive : String := "for (i = 0; i < num-tasks; i++) #pragma omp task"

def attributes (p : GeometricPattern) (e : PatternEncoding) : List (String × Json) :=
  p.site.attributes ++
    [("do_all_children", .arr (p.doAllLoops.map e.node)),
      ("reduction_children", .arr (p.reductionLoops.map e.node)),
      ("min_iter_number", .int p.leastIterations), ("num_tasks", .int p.tasks),
      ("pragma", .str directive), ("first_private", e.vars p.vars.firstPrivate),
      ("private", e.vars p.vars.privates), ("last_private", .arr []),
      ("shared", e.vars p.vars.shared), ("reduction", .strings p.vars.reduction)]

def text (p : GeometricPattern) : String :=
  let ids (xs : List String) : String := Text.listLiteral (xs.map Text.literal)
  Text.fields (p.site.fields "Geometric decomposition" ++
    [("Do-All loops", ids p.doAllLoops), ("Reduction loops", ids p.reductionLoops),
      ("\tNumber of tasks", toString p.tasks), ("\tChunk limits", toString p.leastIterations),
      ("\tpragma", directive ++ "]"), ("\tprivate", namesLiteral p.vars.privates),
      ("\tshared", namesLiteral p.vars.shared), ("\tfirst private", namesLiteral p.vars.firstPrivate),
      ("\treduction", ids p.vars.reduction), ("\tlast private", "[]")])

/-- The largest whole number that is not above a number. -/
def floorOf (x : Float) : Int :=
  match Decimal.parts x.floor with
  | .finite b =>
    let n : Int := (b.scaled 0 : Nat)
    if b.negative then -n else n
  | _ => 0

section

variable {α : Type} [Add α] [Sub α] [Mul α] [OfScientific α]

/-- The number of tasks that is estimated from the roots of a least iteration count and a
workload. -/
def estimate (mi wl : α) : α := 1.1 * mi + 0.0002 * wl - 0.0000002 * mi * wl - 10.0

/-- An estimate is rounded down to a round number; a negative one stands for two tasks. -/
def roundTasks [Div α] [LE α] [LT α] [DecidableLE α] [DecidableLT α] (floor : α → Int) (nt : α) : Int :=
  if nt ≥ 1000.0 then floor (nt / 100.0) * 100
  else if nt ≥ 100.0 then floor (nt / 10.0) * 10
  else if nt < 0.0 then 2
  else floor nt

end

def taskCount (leastIterations workload : Int) : Result Int :=
  if leastIterations < 0 || workload < 0 then .error .notANumber
  else .ok (roundTasks floorOf (estimate (Float.ofInt leastIterations).sqrt (Float.ofInt workload).sqrt))

end GeometricPattern

namespace Graph

def isDecomposable (g : Graph) (root : Node) : Bool :=
  let direct := (g.childrenOrCalledOf root.id [.function]).flatMap fun f =>
    g.childrenOrCalledOf f.id [.loop]
  (g.subtreeLoops root ++ direct).all fun l => l.reduction || l.doAll

/-- The iterations of the innermost loop around a node, going up through first parents. -/
def outerIterationsGo (g : Graph) : Nat → NodeId → List NodeId → Int
  | 0, _, _ => 1
  | fuel + 1, id, visited =>
    match (g.inEdgesOf id [.child, .call]).head? with
    | none => 1
    | some e =>
      match g.node? e.source with
      | none => 1
      | some n =>
        if visited.contains n.id then 1
        else match n.iterations? with
          | some i => max 1 i
          | none => outerIterationsGo g fuel n.id (visited ++ [n.id])

def relativeIterations (g : Graph) (loop : Node) : Int :=
  let own := loop.iterations?.getD (-1)
  let outer := g.outerIterationsGo (g.size + 1) loop.id []
  if own < outer then own else if own ≤ 0 || outer ≤ 0 then 0 else own / outer

/-- The loops directly below a function, and those directly below the functions there. -/
def chunkLoops (g : Graph) (root : Node) : List Node :=
  g.childrenOrCalledOf root.id [.loop] ++
    (g.childrenOrCalledOf root.id [.function]).flatMap fun f => g.childrenOrCalledOf f.id [.loop]

/-- The iteration counts of loops, by the lines on which they start. -/
def countsByLine (g : Graph) (loops : List Node) : Table LineId Int :=
  loops.foldl (fun t l => t.insert l.start (g.relativeIterations l)) ∅

def chunkLimit (g : Graph) (root : Node) : Option Int := (g.countsByLine (g.chunkLoops root)).values.min?

end Graph

def geometricPattern (root : Node) (leastIterations : Int) : Analysis GeometricPattern := do
  let (doAll, reduction) := (← Analysis.graph).parallelLoops root
  let site ← (PatternSite.ofNode root).withWorkload
  let tasks ← Analysis.lift (GeometricPattern.taskCount leastIterations (site.workload.getD 0))
  let vars ← Analysis.query (·.classifyTask root "GeometricDecomposition" [] [] false)
  let index : Variable := { type := some "int", name := some "i", defLine := some "", size := 4 }
  return {
    site, doAllLoops := doAll.map (·.id), reductionLoops := reduction.map (·.id), leastIterations, tasks
    vars := { vars with firstPrivate := vars.firstPrivate ++ [index] } }

def detectGeometric : Analysis (List GeometricPattern) := do
  let functions := (← Analysis.graph).functions
  functions.foldlM (fun (found : List GeometricPattern) f => do
    let g ← Analysis.graph
    if !g.isDecomposable f then return found
    Analysis.modifyNode f.id fun n => { n with geometric := true }
    match g.chunkLimit f with
    | some limit =>
      if 0 < limit then return found ++ [← geometricPattern f limit] else return found
    | none => return found) []

end ParallelPatterns
