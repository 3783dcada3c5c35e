import ParallelPatterns.Task.Barrier

/-!
# Tasks in the bodies of loops

A wait at the increment of a loop without dependences moves behind the loop. In other loops a wait
moves to the end of the loop, and a task directly below the loop becomes the whole body; what the
body shares is then protected by critical and atomic sections.
-/

namespace ParallelPatterns

namespace Graph

/-- The nodes that wait for tasks at the ends of the ways from a node over successors; a node is
listed for every step that leads to it. -/
def waitsAfterGo (g : Graph) : Nat → Node → List Node → List Node × List Node
  | 0, _, visited => ([], visited)
  | fuel + 1, n, visited =>
    if n.containsTaskwait then ([n], visited)
    else
      ((g.successors n.id).filter fun m => !m.alike n).foldl (fun (found, visited) m =>
        if m.among visited then (found, visited)
        else
          let (more, visited) := g.waitsAfterGo fuel m visited
          (found ++ more, visited)) ([], visited ++ [n])

def waitsAfter (g : Graph) (n : Node) : List Node := (g.waitsAfterGo (g.size + 1) n []).1

def namesInto (g : Graph) (n : Node) : List String :=
  distinct ((g.inData n.id).filterMap fun e => e.dep.var)

end Graph

def sectionText (first last : LineId) : String := first ++ "-" ++ last

section

variable {α : Type} (follows : α → α → Bool) (join : α → α → α)

/-- Joins the first element that another one follows with that one, which is taken out. -/
def joinPair? (xs : List α) : Option (List α) :=
  xs.zipIdx.findSome? fun (a, i) =>
    (xs.zipIdx.find? fun (b, j) => i != j && follows a b).map fun (b, j) => (xs.set i (join a b)).eraseIdx j

variable {follows : α → α → Bool} {join : α → α → α}

theorem exists_of_joinPair? {xs ys : List α} (h : joinPair? follows join xs = some ys) :
    ∃ a b i j, xs[i]? = some a ∧ xs[j]? = some b ∧ i ≠ j ∧ follows a b ∧ (xs.set i (join a b)).eraseIdx j = ys := by
  obtain ⟨⟨a, i⟩, ha, h⟩ := List.exists_of_findSome?_eq_some h
  obtain ⟨⟨b, j⟩, hb, h⟩ := Option.map_eq_some_iff.1 h
  have htest := List.find?_some hb
  simp only [bne_iff_ne, Bool.and_eq_true] at htest
  exact ⟨a, b, i, j, List.mk_mem_zipIdx_iff_getElem?.1 ha,
    List.mk_mem_zipIdx_iff_getElem?.1 (List.mem_of_find?_eq_some hb), htest.1, htest.2, h⟩

theorem length_lt_of_joinPair? {xs ys : List α} (h : joinPair? follows join xs = some ys) :
    ys.length < xs.length := by
  obtain ⟨a, b, i, j, -, hb, -, -, rfl⟩ := exists_of_joinPair? h
  obtain ⟨hj, -⟩ := List.getElem?_eq_some_iff.1 hb
  rw [List.length_eraseIdx_of_lt (by simpa using hj), List.length_set]
  omega

variable (follows join) in
/-- Joins elements until none follows another. -/
def joinPairs (xs : List α) : List α :=
  match h : joinPair? follows join xs with
  | some ys =>
    have := length_lt_of_joinPair? h
    joinPairs ys
  | none => xs
termination_by xs.length

end

/-- The lines from the first to the last one that are not atomic. -/
def criticalLines (first last : Int) (atomic : List Int) : List Int :=
  ((List.range (last - first + 1).toNat).map fun (i : Nat) => first + (i : Int)).filter fun l => !atomic.contains l

def criticalRanges (first last : Int) (atomic : List Int) : List (Int × Int) :=
  joinPairs (fun a b => a.2 + 1 == b.1) (fun a b => (a.1, b.2))
    ((criticalLines first last atomic).map fun l => (l, l))

def Graph.atomicLines (g : Graph) (n : Node) : Result (List Int × List (Int × Int)) := do
  let inside ← (← g.reductionList).filterM fun r => lineInRegion r.reductionLine n.start n.finish
  let atomic ← inside.mapM fun r => do return (← parseId r.reductionLine).2
  return (atomic, criticalRanges n.startLine n.endLine atomic)

def Graph.joinChains (g : Graph) : List (List Node) → List (List Node) :=
  joinPairs (fun a b => match a.getLast?, b.head? with
    | some last, some first => first.among (g.successors last.id)
    | _, _ => false) (· ++ ·)

def isCoveredBy (n : Node) (chain : List Node) : Result Bool :=
  match chain.head?, chain.getLast? with
  | some first, some last => do
    return (← lineInRegion n.start first.start last.finish) && (← lineInRegion n.finish first.start last.finish)
  | _, _ => .ok false

def dropCovered? (chains : List (List Node)) : Result (Option (List (List Node))) := do
  let indexed := chains.zipIdx
  let covered ← indexed.filterM fun (c, i) => do
    match c with
    | [n] => indexed.anyM fun (d, j) => if i == j then .ok false else isCoveredBy n d
    | _ => return false
  match covered with
  | [] => return none
  | (_, i) :: _ => return some (chains.eraseIdx i)

def dropCovered : Nat → List (List Node) → Result (List (List Node))
  | 0, chains => .ok chains
  | fuel + 1, chains => do
    match ← dropCovered? chains with
    | some chains => dropCovered fuel chains
    | none => return chains

def distinctNodes (ns : List Node) : List Node :=
  ns.foldl (fun kept n => if n.among kept then kept else kept ++ [n]) []

namespace Planning

def addSections (i : Nat) (c : TaskClause) (nodes : List Node) : Planning Unit := do
  let g ← graph
  let nodes := distinctNodes nodes
  let chains ← lift (dropCovered nodes.length (g.joinChains (nodes.map ([·]))))
  for chain in chains do
    match chain.head?, chain.getLast? with
    | some first, some last => addName i c (sectionText first.start last.finish)
    | _, _ => pure ()

def moveWaits (n : Node) (line : Int) : Planning Unit := do
  for i in ← tasksOf .taskwait do
    if (← node (← task i).node).alike n then modifyTask i fun t => { t with line := .computed line }

/-- Protects what a node below a loop writes to a shared variable. Gives the node if all of it is
critical. -/
def protect (i : Nat) (n : Node) : Planning (Option Node) := do
  if !(← query fun g => g.containsReduction n) then return some n
  let (atomic, critical) ← query fun g => g.atomicLines n
  for (first, last) in critical do
    addName i .critical (sectionText (position n.file first) (position n.file last))
  for line in atomic do addName i .atomic (sectionText (position n.file line) (position n.file line))
  return none

def takeBody (i : Nat) (loop : Node) : Planning (List Node) := do
  let first := loop.startLine + 1
  modifyTask i fun t => { t with
    line := .computed first, regionStart := toString first, regionEnd := some (toString loop.endLine) }
  let n ← node (← task i).node
  let g ← graph
  let inside := (g.childrenOrCalled loop.id).filter fun c =>
    c.file == n.file && c.startLine ≥ first && c.endLine ≤ loop.endLine
  let found ← inside.mapM fun c => do
    let shared := (← task i).names .shared
    ((g.namesInto c).filter shared.contains).mapM fun _ => protect i c
  return found.flatten.filterMap id

def correctInLoop (i : Nat) (loop : Node) : Planning (List Node) := do
  let n ← node (← task i).node
  if !(← lift (lineInRegion n.start loop.start loop.finish)) then return []
  let g ← graph
  let found ← (g.waitsAfter n).mapM fun w => do
    if loop.doAll then
      let b ← w.unit?.getDM (throw .missingProperty)
      if b.block == some "for.inc" then moveWaits w (loop.endLine + 1)
      return []
    else
      moveWaits w loop.endLine
      if (g.parentIds n.id).contains loop.id then takeBody i loop else return []
  return found.flatten

def correctLoopBodies : Planning Unit := do
  for i in ← tasksOf .task do
    let critical ← (← graph).loops.mapM (correctInLoop i)
    addSections i .critical critical.flatten

end Planning

end ParallelPatterns
