import ParallelPatterns.Graph.Traversal

/-!
# Post-dominators

A node post-dominates another with respect to an exit if every way over successor edges from the
other to the exit passes through it. The immediate one is nearest. A function looks, for each of its
units, for the nearest post-dominator outside of the innermost node that encloses the unit.
-/

namespace ParallelPatterns.Graph

variable (g : Graph)

def sourcesWithout (avoid : NodeId) (id : NodeId) : List NodeId :=
  if id == avoid then []
  else ((g.inEdgesOf id [.successor]).map (·.source)).filter fun p => !(p == avoid)

/-- The nodes from which an exit is reached over successor edges without passing through a node. -/
def reachingExitWithout (avoid : NodeId) (exit : NodeId) : List NodeId :=
  if exit == avoid then [] else Search.reached (g.sourcesWithout avoid) (g.links.length + 1) exit

def strictPostDominators (exit : NodeId) : Table NodeId (List NodeId) :=
  let all := g.reachingIds [.successor] exit
  let without := all.map fun d => (d, g.reachingExitWithout d exit)
  ⟨all.map fun n =>
    (n, (without.filter fun (d, reached) => !(d == n) && !reached.contains n).map (·.1))⟩

def immediatePostDominators (exit : NodeId) : Table NodeId NodeId :=
  let strict := g.strictPostDominators exit
  let depth (id : NodeId) : Nat := (strict.getD id []).length
  strict.map fun n ds =>
    ds.foldl (fun best d => if best == n || depth best < depth d then d else best) n

/-- Follows immediate post-dominators until one lies outside of the node's parent, or the parent is
a function; nothing if the search comes back to where it was. -/
def outsideParentGo (g : Graph) (dominators : Table NodeId NodeId) (parent : Option NodeId) :
    Nat → NodeId → List NodeId → Result (Option NodeId)
  | 0, _, _ => .ok none
  | fuel + 1, d, visited => do
    let _ ← g.node d
    let p ← g.parentId d
    if p != parent then return some d
    match p with
    | none => .error .unknownKey
    | some q =>
      if (← g.node q).isFunction then return some d
      if visited.contains d then return none
      match dominators.get? d with
      | none => .error .unknownKey
      | some next =>
        if next == d then return some d
        else outsideParentGo g dominators parent fuel next (visited ++ [d])

def outsideParent (dominators : Table NodeId NodeId) (id : NodeId) : Result (Option NodeId) := do
  if !(← g.node id).isUnit then return none
  g.outsideParentGo dominators (← g.parentId id) (g.size + 1) (dominators.getD id id) []

/-- An order in which the members of a set come: any order, with each of them once. -/
structure SetOrder (α : Type) where
  list : List α → List α
  perm (as : List α) : (list as).Perm as

def SetOrder.given {α : Type} : SetOrder α := ⟨id, fun _ => .refl _⟩

variable (order : SetOrder (NodeId × NodeId))

/-- The pairs of a node and its immediate post-dominator with respect to any of the exits are one
set; of several pairs of a node the last one counts. -/
def mergedPostDominators (exits : List NodeId) : Table NodeId NodeId :=
  .ofList (order.list (distinct (exits.flatMap fun e => (g.immediatePostDominators e).entries)))

/-- The immediate post-dominators of the nodes below a function. A node without one is its own. -/
def childPostDominators (children : List NodeId) : Table NodeId NodeId :=
  children.foldl (fun t c => t.insertNew c c) (g.mergedPostDominators order (g.exitUnits children))

/-- The post-dominators of the nodes below a function outside of their parents, by the nodes' own
order. A node without one is its own. -/
def functionPostDominators (children : List NodeId) : Result (Table NodeId NodeId) :=
  let dominators := g.childPostDominators order children
  children.foldlM (fun t id => do return t.insert id ((← g.outsideParent dominators id).getD id)) ∅

def postDominators (g : Graph) (f : NodeId) (b : FunctionBody) (order : SetOrder (NodeId × NodeId) := .given) :
    Result (Table NodeId NodeId × Graph) :=
  match b.postDominators with
  | some t => .ok (t, g)
  | none => do
    match b.children with
    | none => .error .wrongSort
    | some children =>
      let t ← g.functionPostDominators order children
      return (t, g.modifyNode f fun n => n.modifyFunction fun b => { b with postDominators := some t })

end ParallelPatterns.Graph
