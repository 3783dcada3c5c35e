import ParallelPatterns.Proofs.WellFormed

/-!
# The operators of variables

A loop that is marked as a reduction gives operators to the variables that it combines, each time
its variables are sorted into classes. A variable has one operator only, at its place in the graph,
so that the last one given stays.

Detecting patterns marks nodes and variables, and `Graph.unmarked` takes all these marks away. The
variables of a loop are sorted into the same classes with and without the marks, except that
reduction variables are looked for only if the loop itself is marked as a reduction
(`Graph.classOf_settled`).
-/

namespace ParallelPatterns

open List Analysis Access

/-! ### Nodes -/

def NodeBody.unmarked : NodeBody → NodeBody
  | .loop b => .loop { b with arrayReduction := false }
  | b => b

namespace Node

def marked (b : Bool) (n : Node) : Node :=
  { n with reduction := b, doAll := false, workload := none, body := n.body.unmarked }

def unmarked (n : Node) : Node := n.marked false

variable (b : Bool) (n : Node)

@[simp] theorem id_marked : (n.marked b).id = n.id := rfl

@[simp] theorem parentFunction_marked : (n.marked b).parentFunction = n.parentFunction := rfl

@[simp] theorem kind_marked : (n.marked b).kind = n.kind := by
  unfold kind marked
  cases n.body <;> rfl

@[simp] theorem isUnit_marked : (n.marked b).isUnit = n.isUnit := by rw [isUnit, kind_marked, isUnit]

@[simp] theorem isFunction_marked : (n.marked b).isFunction = n.isFunction := by
  rw [isFunction, kind_marked, isFunction]

@[simp] theorem unit?_marked : (n.marked b).unit? = n.unit? := by
  unfold unit? marked
  cases n.body <;> rfl

@[simp] theorem function?_marked : (n.marked b).function? = n.function? := by
  unfold function? marked
  cases n.body <;> rfl

@[simp] theorem locals_marked : (n.marked b).locals = n.locals := by rw [locals, unit?_marked, locals]

@[simp] theorem globals_marked : (n.marked b).globals = n.globals := by rw [globals, unit?_marked, globals]

@[simp] theorem marked_marked (b' : Bool) : (n.marked b).marked b' = n.marked b' := by
  unfold marked
  cases n.body <;> rfl

theorem unmarked_modifyLoop (array : Bool) :
    (n.modifyLoop fun b => { b with arrayReduction := array }).unmarked = n.unmarked := by
  unfold modifyLoop
  split
  · rename_i b hb
    simp [unmarked, marked, hb, NodeBody.unmarked]
  · rfl

end Node

theorem Access.holds_map_unmarked (tree : List Node) (id : NodeId) :
    holds (tree.map Node.unmarked) id = holds tree id := by
  unfold holds
  rw [any_map]
  rfl

namespace Graph

def unmarked (g : Graph) : Graph := { g with nodes := g.nodes.map fun _ n => n.unmarked, operators := ∅ }

variable (g : Graph)

/-! ### Walking through the graph -/

variable (id : NodeId)

@[simp] theorem node?_unmarked : g.unmarked.node? id = (g.node? id).map Node.unmarked :=
  Table.get?_map _ _ _

@[simp] theorem node_unmarked : g.unmarked.node id = (g.node id).map Node.unmarked := by
  unfold node
  rw [node?_unmarked]
  cases g.node? id <;> rfl

@[simp] theorem size_unmarked : g.unmarked.size = g.size := by
  unfold size unmarked Table.map
  rw [length_map]

theorem filterMap_node?_unmarked {α : Type} (f : α → NodeId) (xs : List α) :
    (xs.filterMap fun x => g.unmarked.node? (f x)) = (xs.filterMap fun x => g.node? (f x)).map Node.unmarked := by
  rw [map_filterMap]
  simp only [node?_unmarked]

theorem childrenOrCalled_unmarked : g.unmarked.childrenOrCalled id = (g.childrenOrCalled id).map Node.unmarked :=
  filterMap_node?_unmarked g _ _

theorem children_unmarked : g.unmarked.children id = (g.children id).map Node.unmarked :=
  filterMap_node?_unmarked g _ _

variable (c : LoopContext) (b : Bool) (nodes : List Node) (root : Node)

theorem subtreeOf_unmarked (kinds : List NodeKind) :
    g.unmarked.subtreeOf (root.marked b) kinds = (g.subtreeOf root kinds).map Node.unmarked := by
  have hsubtree : g.unmarked.subtree (root.marked b) = (g.subtree root).map Node.unmarked := by
    unfold subtree nodesAt reachedIds
    rw [size_unmarked]
    exact filterMap_node?_unmarked g (fun id => id) _
  unfold subtreeOf
  rw [hsubtree, filter_map]
  congr 2
  funext n
  exact congrArg kinds.contains (n.kind_marked false)

theorem subtreeUnits_unmarked : g.unmarked.subtreeUnits (root.marked b) = (g.subtreeUnits root).map Node.unmarked :=
  g.subtreeOf_unmarked b root _

theorem parentFunction_unmarked {n : Node} (hn : n.isFunction = false) :
    g.unmarked.parentFunction (n.marked b) = (g.parentFunction n).map Node.unmarked := by
  unfold parentFunction
  rw [Node.isFunction_marked, Node.parentFunction_marked, hn, if_neg Bool.false_ne_true]
  cases n.parentFunction with
  | none => rfl
  | some f =>
    simp only
    split
    · rfl
    · exact g.node_unmarked f

theorem besideGo_unmarked {target : Node} {next next' : NodeId → List Node}
    (hnext : ∀ id, next' id = (next id).map Node.unmarked) (fuel : Nat) (stack : List Node)
    (visited : List NodeId) (found : List Node) :
    g.unmarked.besideGo (target.marked b) next' fuel (stack.map Node.unmarked) visited (found.map Node.unmarked) =
      (g.besideGo target next fuel stack visited found).map Node.unmarked := by
  induction fuel generalizing stack visited found with
  | zero => rfl
  | succ fuel ih =>
    cases stack with
    | nil => rfl
    | cons n stack =>
      have hfound : (if n.unmarked.isUnit then found.map Node.unmarked ++ [n.unmarked]
          else found.map Node.unmarked) =
          (if n.isUnit then found ++ [n] else found).map Node.unmarked := by
        rw [Node.unmarked, Node.isUnit_marked]
        split <;> simp [Node.unmarked]
      rw [map_cons, besideGo, besideGo, hfound, hnext, ← map_append]
      have halike : n.unmarked.alike (target.marked b) = n.alike target := rfl
      have hid : n.unmarked.id = n.id := rfl
      rw [halike, hid]
      by_cases hmet : n.alike target
      · rw [if_pos hmet, if_pos hmet]
      · rw [if_neg hmet]
        simp only [ih]
        split <;> rfl

theorem beside_unmarked (target : Node) (right ignoreCalls : Bool) :
    g.unmarked.beside (target.marked b) right ignoreCalls =
      (g.beside target right ignoreCalls).map (map Node.unmarked) := by
  unfold beside
  by_cases hfunction : target.isFunction
  · -- a function is met at once, so that nothing is beside it
    have hself : ∀ g' : Graph, ∀ n : Node, n.isFunction → g'.parentFunction n = .ok n := by
      intro g' n hn
      rw [parentFunction, if_pos hn]
    have hmet : ∀ g' : Graph, ∀ n : Node, ∀ next fuel, g'.besideGo n next (fuel + 1) [n] [] [] = [] := by
      intro g' n next fuel
      rw [besideGo, if_pos n.alike_refl]
    rw [hself _ _ hfunction, hself _ _ (by rwa [Node.isFunction_marked])]
    simp only [bind, Except.bind, hmet]
    rfl
  · have hnone : target.isFunction = false := by simpa using hfunction
    rw [parentFunction_unmarked g b hnone]
    cases g.parentFunction target with
    | error e => rfl
    | ok f =>
      refine congrArg Except.ok (besideGo_unmarked g b (fun id => ?_) _ [f] [] [])
      cases right <;> cases ignoreCalls <;> simp [children_unmarked, childrenOrCalled_unmarked]

/-! ### Variables -/

theorem variablesOf_unmarked : g.unmarked.variablesOf (nodes.map Node.unmarked) = g.variablesOf nodes := by
  unfold variablesOf
  rw [foldl_map]
  congr 1
  funext t n
  rw [Node.unmarked, Node.unit?_marked]
  cases n.unit? <;> rfl

theorem initialised_unmarked : g.unmarked.initialised (nodes.map Node.unmarked) = g.initialised nodes := by
  unfold initialised
  rw [foldl_map]
  congr 1
  funext t n
  rw [Node.unmarked, Node.globals_marked, Node.locals_marked]
  rfl

variable (name : Option String)

theorem isGlobal_unmarked (nodes : List Node) : isGlobal name (nodes.map Node.unmarked) = isGlobal name nodes := by
  unfold isGlobal
  rw [any_map]
  congr 1
  funext n
  exact congrArg (·.any fun v => v.name == name) (n.globals_marked false)

theorem isLoopIndexBelow_unmarked :
    g.unmarked.isLoopIndexBelow (root.marked b) name = g.isLoopIndexBelow root name := by
  have hamong : ∀ id, (g.unmarked.node? id).any (·.among ((g.subtreeUnits root).map Node.unmarked)) =
      (g.node? id).any (·.among (g.subtreeUnits root)) := by
    intro id
    rw [node?_unmarked, Option.any_map]
    congr 1
    funext n
    exact any_map
  unfold isLoopIndexBelow isLoopIndex indexNames
  simp only [subtreeLoops, subtreeOf_unmarked, map_map, subtreeUnits_unmarked, flatMap_map, hamong]
  rfl

theorem isArgument_unmarked (n : Node) : g.unmarked.isArgument name (n.marked b) = g.isArgument name n := by
  have hholders : ∀ es : List Edge,
      (g.unmarked.sources es ++ (if n.isFunction then [n.marked b] else [])).flatMap
          (fun f => ((f.function?).map (·.args)).getD []) =
        (g.sources es ++ (if n.isFunction then [n] else [])).flatMap
          fun f => ((f.function?).map (·.args)).getD [] := by
    intro es
    have hsources : g.unmarked.sources es = (g.sources es).map _ := filterMap_node?_unmarked g _ _
    rw [hsources, flatMap_append, flatMap_append, flatMap_map]
    congr 1
    · simp [Node.unmarked]
    · split <;> simp
  unfold isArgument
  cases name with
  | none => rfl
  | some s =>
    simp only [Node.isFunction_marked, hholders]
    rfl

theorem outsideVariables_unmarked (loop : Node) (withGlobals : Bool) :
    g.unmarked.outsideVariables (loop.marked b) withGlobals = g.outsideVariables loop withGlobals := by
  unfold outsideVariables
  simp only [subtreeUnits_unmarked, variablesOf_unmarked, all_map]
  rfl

/-! ### Classes -/

/-- The surroundings of a loop without marks, except that the loop itself stays marked as a
reduction. -/
def LoopContext.settled (c : LoopContext) : LoopContext where
  loop := c.loop.marked c.loop.reduction
  left := c.left.map Node.unmarked
  right := c.right.map Node.unmarked
  units := c.units.map Node.unmarked
  accesses := c.accesses

theorem loopContext_unmarked (loop : Node) :
    g.unmarked.loopContext (loop.marked loop.reduction) = (g.loopContext loop).map LoopContext.settled := by
  unfold loopContext contextBetween
  rw [beside_unmarked, beside_unmarked, subtreeUnits_unmarked]
  cases g.beside loop false false with
  | error e => rfl
  | ok left =>
    cases g.beside loop true false with
    | error e => rfl
    | ok right =>
      simp only [accessesOf, flatMap_map]
      rfl

theorem classifiedVariables_settled : g.unmarked.classifiedVariables c.settled = g.classifiedVariables c := by
  unfold classifiedVariables LoopContext.settled
  rw [outsideVariables_unmarked, beside_unmarked]
  cases g.outsideVariables c.loop false with
  | error e => rfl
  | ok vars =>
    cases g.beside c.loop false true with
    | error e => rfl
    | ok before =>
      simp only [bind, Except.bind, Except.map, variablesOf_unmarked, initialised_unmarked]

theorem scalarClass_settled (v : Variable) (regions : List Region) :
    g.unmarked.scalarClass c.settled v regions = g.scalarClass c v regions := by
  unfold scalarClass hasValueAt LoopContext.settled writtenIn readInSubtree firstWritten
  simp only [isArgument_unmarked, isGlobal_unmarked, holds_map_unmarked]

theorem classOf_settled (v : Variable) (regions : List Region) :
    g.unmarked.classOf c.settled v regions = g.classOf c v regions := by
  have hindex : g.unmarked.isLoopIndexBelow c.settled.loop v.name = g.isLoopIndexBelow c.loop v.name :=
    g.isLoopIndexBelow_unmarked _ _ _
  have hread : readInSubtree regions c.settled.accesses.reverseRaw c.settled.right =
      readInSubtree regions c.accesses.reverseRaw c.right := by
    unfold readInSubtree LoopContext.settled
    simp only [holds_map_unmarked]
  unfold classOf
  rw [hindex, hread, scalarClass_settled]
  rfl

end Graph

/-! ## Operators -/

variable {acc : LoopVariables} {g g₁ g₂ : Graph} {v : Variable}
  {e : Variable × String}

/-! ### Signs -/

/-- The sign that was given last to the variable at a place. -/
def signAt (place : Nat) (signs : List (Variable × String)) : Option String :=
  (signs.reverse.find? fun e => e.1.place == some place).map (·.2)

theorem signAt_append (place : Nat) (signs more : List (Variable × String)) :
    signAt place (signs ++ more) = (signAt place more).or (signAt place signs) := by
  rw [signAt, reverse_append, find?_append, Option.map_or]
  rfl

theorem isSome_signAt_iff {place : Nat} {signs : List (Variable × String)} :
    (signAt place signs).isSome ↔ ∃ e ∈ signs, e.1.place = some place := by
  simp [signAt]

variable {m : Node} {acc' classes : LoopVariables} {g' : Graph}

namespace Graph

variable {loop : Node} {c : LoopContext}

def giveOperators (g : Graph) (signs : List (Variable × String)) : Graph :=
  signs.foldl (fun g e => g.setOperator e.1 e.2) g

theorem setOperator_eq (g : Graph) (v : Variable) (sign : String) :
    ∃ operators, g.setOperator v sign = { g with operators } ∧
      ∀ place, operators.get? place = (signAt place [(v, sign)]).or (g.operators.get? place) := by
  unfold setOperator
  cases hv : v.place with
  | none => exact ⟨g.operators, rfl, fun place => by simp [signAt, hv]⟩
  | some p =>
    refine ⟨g.operators.insert p sign, rfl, fun place => ?_⟩
    by_cases hp : p = place <;> simp [signAt, hv, hp]

theorem giveOperators_eq (g : Graph) (signs : List (Variable × String)) :
    ∃ operators, g.giveOperators signs = { g with operators } ∧
      ∀ place, operators.get? place = (signAt place signs).or (g.operators.get? place) := by
  induction signs generalizing g with
  | nil => exact ⟨g.operators, rfl, fun place => rfl⟩
  | cons e signs ih =>
    obtain ⟨first, hfirst, hgiven⟩ := g.setOperator_eq e.1 e.2
    obtain ⟨operators, hrest, hlast⟩ := ih (g.setOperator e.1 e.2)
    refine ⟨operators, ?_, fun place => ?_⟩
    · exact hrest.trans (by rw [hfirst])
    · rw [hlast place, hfirst, ← singleton_append, signAt_append]
      simp only [hgiven]
      exact Option.or_assoc.symm

/-! ### The variables that a loop combines -/

/-- Adds a variable with its sign if the loop combines it. -/
def addCombined (g : Graph) (c : LoopContext) (found : List (Variable × String)) (v : Variable)
    (regions : List Region) : Result (List (Variable × String)) := do
  match ← g.classOf c v regions with
  | some .reduction => return found ++ [(v, ← g.reductionSign c.loop.start v.name)]
  | _ => return found

/-- The variables that a loop combines, with their signs. -/
def combined (g : Graph) (loop : Node) : Result (List (Variable × String)) := do
  let c ← g.loopContext loop
  let vars ← g.classifiedVariables c
  vars.foldlM (fun found e => g.addCombined c found e.1 e.2) []

theorem loop_of_loopContext (h : g.loopContext loop = .ok c) : c.loop = loop := by
  obtain ⟨left, -, h⟩ := bind_eq_ok_iff.1 h
  obtain ⟨right, -, h⟩ := bind_eq_ok_iff.1 h
  cases h
  rfl

theorem combined_unmarked (g : Graph) (loop : Node) :
    g.unmarked.combined (loop.marked loop.reduction) = g.combined loop := by
  unfold combined
  rw [loopContext_unmarked]
  cases g.loopContext loop with
  | error e => rfl
  | ok c =>
    have hadd : g.unmarked.addCombined c.settled = g.addCombined c := by
      funext found v regions
      unfold addCombined
      rw [classOf_settled]
      rfl
    simp only [bind, Except.bind, Except.map, classifiedVariables_settled, hadd]

theorem combined_congr {h : Graph} {n : Node} (hgraph : g.unmarked = h.unmarked) (hnode : m.unmarked = n.unmarked)
    (hreduction : m.reduction = n.reduction) : g.combined m = h.combined n := by
  have hmarked : m.marked m.reduction = n.marked n.reduction := by
    rw [← m.marked_marked false, ← n.marked_marked false, hreduction]
    exact congrArg (Node.marked n.reduction) hnode
  rw [← combined_unmarked g m, hgraph, hmarked, combined_unmarked]

variable {regions : List Region} {k : Option LoopClass}

theorem scalarClass_ne_reduction (h : g.scalarClass c v regions = .ok k) : k ≠ some .reduction := by
  rintro rfl
  unfold scalarClass hasValueAt at h
  simp only [bind, Except.bind, pure, Except.pure] at h
  -- every branch names its class
  repeat' split at h
  all_goals simp_all

theorem classOf_ne_reduction (hloop : c.loop.reduction = false)
    (h : g.classOf c v regions = .ok k) : k ≠ some .reduction := by
  unfold classOf at h
  rw [hloop] at h
  split at h
  · cases h
    split <;> simp
  · exact scalarClass_ne_reduction h

theorem combined_of_not_reduction {signs : List (Variable × String)}
    (hloop : loop.reduction = false) (h : g.combined loop = .ok signs) : signs = [] := by
  obtain ⟨c, hcontext, h⟩ := bind_eq_ok_iff.1 h
  obtain ⟨vars, -, h⟩ := bind_eq_ok_iff.1 h
  refine foldlM_keeps (P := (· = [])) (fun found e found' hfound hadd => ?_) rfl h
  obtain ⟨k, hclass, hadd⟩ := bind_eq_ok_iff.1 hadd
  have hne := classOf_ne_reduction (loop_of_loopContext hcontext ▸ hloop) hclass
  split at hadd
  · exact absurd rfl hne
  · cases hadd
    exact hfound

end Graph

open ParallelPatterns.Graph

theorem sortVariables_perm {vs sorted : List Variable} (h : sortVariables vs = .ok sorted) : sorted ~ vs := by
  unfold sortVariables at h
  split at h
  · cases h
  · cases h
    exact mergeSort_perm vs _

namespace LoopVariables

/-- The variables of a class. -/
def of (c : LoopVariables) : LoopClass → List Variable
  | .firstPrivate => c.firstPrivate
  | .privates => c.privates
  | .lastPrivate => c.lastPrivate
  | .shared => c.shared
  | .reduction => c.reduction

theorem of_sorted {c sorted : LoopVariables} (h : c.sorted = .ok sorted) (k : LoopClass) :
    sortVariables (c.of k) = .ok (sorted.of k) := by
  obtain ⟨_, hfirst, h⟩ := bind_eq_ok_iff.1 h
  obtain ⟨_, hprivates, h⟩ := bind_eq_ok_iff.1 h
  obtain ⟨_, hlast, h⟩ := bind_eq_ok_iff.1 h
  obtain ⟨_, hshared, h⟩ := bind_eq_ok_iff.1 h
  obtain ⟨_, hreduction, h⟩ := bind_eq_ok_iff.1 h
  cases h
  cases k <;> assumption

end LoopVariables

theorem runOn_classifyTurn {c : LoopContext} {e : Variable × List Region}
    (h : (classifyTurn g c acc e).runOn g₁ = (.ok acc', g₂)) (found : List (Variable × String)) :
    ∃ signs, g.addCombined c found e.1 e.2 = .ok (found ++ signs) ∧ g₂ = g₁.giveOperators signs ∧
      acc'.reduction = acc.reduction ++ signs.map (·.1) := by
  obtain ⟨k, hclass, h⟩ := runOn_lift_bind_eq_ok h
  unfold addCombined
  rw [hclass]
  cases k with
  | none =>
    cases h
    exact ⟨[], by rw [append_nil]; rfl, rfl, by simp⟩
  | some k =>
    cases k with
    | reduction =>
      obtain ⟨sign, hsign, h⟩ := runOn_lift_bind_eq_ok h
      cases h
      refine ⟨[(e.1, sign)], ?_, rfl, rfl⟩
      simp only [hsign]
      rfl
    | _ =>
      cases h
      exact ⟨[], by rw [append_nil]; rfl, rfl, by simp [LoopVariables.add]⟩

theorem runOn_classifyTurns {c : LoopContext} {vars : VariableRegions}
    (h : (vars.foldlM (classifyTurn g c) acc).runOn g₁ = (.ok acc', g₂)) :
    ∀ found, ∃ signs, vars.foldlM (fun found e => g.addCombined c found e.1 e.2) found = .ok (found ++ signs) ∧
      g₂ = g₁.giveOperators signs ∧ acc'.reduction = acc.reduction ++ signs.map (·.1) := by
  refine foldlM_runOn_induction (M := fun vars acc g₁ acc' g₂ => ∀ found, ∃ signs,
    vars.foldlM (fun found e => g.addCombined c found e.1 e.2) found = .ok (found ++ signs) ∧
      g₂ = g₁.giveOperators signs ∧ acc'.reduction = acc.reduction ++ signs.map (·.1)) ?_ ?_ h
  · intro acc g₁ found
    exact ⟨[], by rw [append_nil]; rfl, rfl, by simp⟩
  · intro e vars acc g₁ acc₁ g₂ acc' g₃ hturn hrest found
    obtain ⟨first, hfirst, rfl, hacc₁⟩ := runOn_classifyTurn hturn found
    obtain ⟨signs, hsigns, rfl, hacc'⟩ := hrest (found ++ first)
    refine ⟨first ++ signs, ?_, ?_, ?_⟩
    · rw [foldlM_cons, hfirst, ← append_assoc]
      exact hsigns
    · rw [giveOperators, giveOperators, giveOperators, foldl_append]
    · rw [hacc', hacc₁, map_append, append_assoc]

theorem classifyLoop_eq_ok {loop : Node} (h : (classifyLoop loop).runOn g = (.ok classes, g')) :
    ∃ c vars unsorted, g.loopContext loop = .ok c ∧ g.classifiedVariables c = .ok vars ∧
      (vars.foldlM (classifyTurn g c) {}).runOn g = (.ok unsorted, g') ∧ unsorted.sorted = .ok classes := by
  rw [classifyLoop, runOn_graph_bind] at h
  obtain ⟨c, hcontext, h⟩ := runOn_lift_bind_eq_ok h
  obtain ⟨vars, hvars, h⟩ := runOn_lift_bind_eq_ok h
  obtain ⟨unsorted, g₁, hfold, h⟩ := runOn_bind_eq_ok h
  obtain ⟨hsorted, rfl⟩ := runOn_lift_eq_ok h
  exact ⟨c, vars, unsorted, hcontext, hvars, hfold, hsorted⟩

theorem classifyLoop_spec {loop : Node} (h : (classifyLoop loop).runOn g = (.ok classes, g')) :
    ∃ signs, g.combined loop = .ok signs ∧ g' = g.giveOperators signs ∧ classes.reduction ~ signs.map (·.1) := by
  obtain ⟨c, vars, unsorted, hcontext, hvars, hfold, hsorted⟩ := classifyLoop_eq_ok h
  obtain ⟨signs, hsigns, rfl, hclass⟩ := runOn_classifyTurns hfold []
  refine ⟨signs, ?_, rfl, ?_⟩
  · simpa only [combined, hcontext, hvars, bind, Except.bind, nil_append] using hsigns
  · rw [show signs.map (·.1) = unsorted.reduction from hclass.symm]
    exact sortVariables_perm (LoopVariables.of_sorted hsorted .reduction)

/-! ### Marks and signs -/

namespace Graph

variable {h : Graph} {id : NodeId}

/-- The graphs differ in marks only, and the relation holds between the marks of a node as a
reduction. -/
structure Remarks (R : Bool → Bool → Prop) (g h : Graph) : Prop where
  unmarked : h.unmarked = g.unmarked
  reduction : ∀ id m n, g.node? id = some m → h.node? id = some n → R m.reduction n.reduction

/-- A node that is a reduction stays one. -/
abbrev KeepsReductions := Remarks fun b b' => b → b'

/-- The same nodes are reductions. -/
abbrev SameReductions := Remarks fun b b' => b' = b

theorem map_node?_of_unmarked (heq : h.unmarked = g.unmarked) (id : NodeId) :
    (h.node? id).map Node.unmarked = (g.node? id).map Node.unmarked := by
  rw [← node?_unmarked, heq, node?_unmarked]

theorem exists_node?_of_unmarked (heq : h.unmarked = g.unmarked) (hm : g.node? id = some m) :
    ∃ n, h.node? id = some n ∧ n.unmarked = m.unmarked := by
  have hnode := map_node?_of_unmarked heq id
  rw [hm] at hnode
  exact Option.map_eq_some_iff.1 hnode

variable {g₃ : Graph} {f : Node → Node} {R : Bool → Bool → Prop}

theorem Remarks.trans (h : Remarks R g₁ g₂) (h' : Remarks R g₂ g₃)
    (hR : ∀ {a b c}, R a b → R b c → R a c) : Remarks R g₁ g₃ where
  unmarked := h'.unmarked.trans h.unmarked
  reduction id m n hm hn := by
    obtain ⟨k, hk, -⟩ := exists_node?_of_unmarked h.unmarked hm
    exact hR (h.reduction id m k hm hk) (h'.reduction id k n hk hn)

theorem SameReductions.trans (h : g₁.SameReductions g₂) (h' : g₂.SameReductions g₃) : g₁.SameReductions g₃ :=
  Remarks.trans h h' fun hab hbc => hbc.trans hab

theorem SameReductions.keeps (hsame : g.SameReductions h) : g.KeepsReductions h where
  unmarked := hsame.unmarked
  reduction id m n hm hn hreduction := (hsame.reduction id m n hm hn).trans hreduction

theorem sameReductions_operators (g : Graph) (operators : Table Nat String) :
    g.SameReductions { g with operators } where
  unmarked := rfl
  reduction _ _ _ hm hn := by rw [Option.some.inj (hm.symm.trans hn)]

theorem unmarked_modifyNode (g : Graph) (id : NodeId) (hf : ∀ n, (f n).unmarked = n.unmarked) :
    (g.modifyNode id f).unmarked = g.unmarked := by
  have hnodes : (g.nodes.modify id f).map (fun _ n => n.unmarked) = g.nodes.map fun _ n => n.unmarked := by
    rw [Table.modify_eq_map, Table.map_map]
    congr 1
    funext id' n
    split
    · exact hf n
    · rfl
  unfold unmarked modifyNode
  rw [hnodes]

theorem node?_modifyNode (g : Graph) (id id' : NodeId) (f : Node → Node) :
    (g.modifyNode id f).node? id' = if id == id' then (g.node? id').map f else g.node? id' :=
  Table.get?_modify _ _ _ _

theorem remarks_modifyNode (g : Graph) (id : NodeId) (hR : ∀ b, R b b)
    (hf : ∀ n, (f n).unmarked = n.unmarked ∧ R n.reduction (f n).reduction) : Remarks R g (g.modifyNode id f) where
  unmarked := g.unmarked_modifyNode id fun n => (hf n).1
  reduction id' m n hm hn := by
    rw [node?_modifyNode, hm] at hn
    split at hn
    · cases hn
      exact (hf m).2
    · cases hn
      exact hR _

/-- The variables that the loop of an identifier combines, with their signs. -/
def combinedAt (g : Graph) (id : NodeId) : List (Variable × String) := ((g.node id >>= g.combined).toOption).getD []

/-- The variables that the loops of a graph combine, with their signs, loop by loop. -/
def signs (g : Graph) : List (Variable × String) := (g.loops.map (·.id)).flatMap g.combinedAt

theorem combinedAt_of_ok {loop : Node} {signs : List (Variable × String)}
    (hloop : g.node id = .ok loop) (hsigns : g.combined loop = .ok signs) : g.combinedAt id = signs := by
  simp only [combinedAt, hloop, hsigns, bind, Except.bind, Except.toOption, Option.getD_some]

theorem exists_of_mem_combinedAt (he : e ∈ g.combinedAt id) :
    ∃ loop signs, g.node? id = some loop ∧ g.combined loop = .ok signs ∧ e ∈ signs := by
  unfold combinedAt at he
  cases hat : g.node id >>= g.combined with
  | error e =>
    rw [hat] at he
    exact absurd he not_mem_nil
  | ok signs =>
    rw [hat] at he
    obtain ⟨loop, hloop, hsigns⟩ := bind_eq_ok_iff.1 hat
    exact ⟨loop, signs, node_eq_ok_iff.1 hloop, hsigns, he⟩

theorem SameReductions.combinedAt (hsame : g.SameReductions h) : h.combinedAt = g.combinedAt := by
  funext id
  unfold Graph.combinedAt node
  cases hm : g.node? id with
  | none =>
    have hn : h.node? id = none := by
      have hnode := map_node?_of_unmarked hsame.unmarked id
      rw [hm] at hnode
      exact Option.map_eq_none_iff.1 hnode
    rw [hn]
    rfl
  | some m =>
    obtain ⟨n, hn, hnode⟩ := exists_node?_of_unmarked hsame.unmarked hm
    rw [hn]
    simp only [bind, Except.bind]
    rw [combined_congr hsame.unmarked hnode (hsame.reduction id m n hm hn)]

theorem KeepsReductions.mem_combinedAt (hkeeps : g.KeepsReductions h) (he : e ∈ g.combinedAt id) :
    e ∈ h.combinedAt id := by
  obtain ⟨m, signs, hm, hsigns, he⟩ := exists_of_mem_combinedAt he
  obtain ⟨n, hn, hnode⟩ := exists_node?_of_unmarked hkeeps.unmarked hm
  -- a loop that is no reduction would combine nothing
  have hreduction : m.reduction := by
    by_contra hnot
    rw [combined_of_not_reduction (Bool.eq_false_iff.2 hnot) hsigns] at he
    cases he
  have hstays : n.reduction := hkeeps.reduction id m n hm hn hreduction
  rw [combinedAt_of_ok (node_eq_ok_iff.2 hn)]
  · exact he
  · rw [combined_congr hkeeps.unmarked hnode (hstays.trans hreduction.symm)]
    exact hsigns

theorem map_id_loops_unmarked (g : Graph) : g.unmarked.loops.map (·.id) = g.loops.map (·.id) := by
  have hnodes : g.unmarked.allNodes = g.allNodes.map Node.unmarked := by
    unfold allNodes unmarked Table.values Table.map
    simp
  unfold loops nodesOf
  rw [hnodes, filter_map, map_map]
  simp only [Function.comp_def, Node.unmarked, Node.kind_marked, Node.id_marked]

theorem map_id_loops_of_unmarked (heq : h.unmarked = g.unmarked) : h.loops.map (·.id) = g.loops.map (·.id) := by
  rw [← map_id_loops_unmarked h, heq, map_id_loops_unmarked]

theorem SameReductions.signs (hsame : g.SameReductions h) : h.signs = g.signs := by
  unfold Graph.signs
  rw [hsame.combinedAt, map_id_loops_of_unmarked hsame.unmarked]

end Graph

end ParallelPatterns
