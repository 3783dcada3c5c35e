import Mathlib.Data.List.TakeWhile
import Mathlib.Data.Set.Basic
import ParallelPatterns.Proofs.LoopClasses

/-!
# The regions of variables and the order of nodes

The variables of nodes are gathered from the first node to the last. A unit adds regions to the
variables that have been declared so far, so a variable misses what units before its first
declaration touch under its name. The regions are the same in every order of the nodes if and only
if the units that declare a variable touch all of them.
-/

namespace ParallelPatterns

open List VariableRegions

/-- The set of the regions under a name, if there is a variable of this name. -/
def VariableRegions.regions? (t : VariableRegions) (name : Option String) : Option (Set Region) :=
  (t.find? fun e => e.1.name == name).map fun e => { r | r ∈ e.2 }

/-- Has the unit a variable of the name? -/
def Node.declares (name : Option String) (n : Node) : Bool := n.ownVariables.any fun v => v.name == name

theorem Node.isUnit_eq_isSome (n : Node) : n.isUnit = n.unit?.isSome := by
  unfold isUnit kind unit?
  cases n.body <;> rfl

namespace Graph

variable {g : Graph} {name : Option String} {nodes : List Node}

/-- The regions that units among the nodes touch under a name, by dependences out of them or into
them. -/
def touched (g : Graph) (nodes : List Node) (name : Option String) : Set Region :=
  { r | ∃ n ∈ nodes, n.isUnit ∧ ∃ e ∈ g.outData n.id ++ g.inData n.id, e.dep.var = name ∧ e.dep.region = some r }

/-- The regions that the nodes touch under a name, if one of them declares it. -/
def regionsUnder (g : Graph) (nodes : List Node) (name : Option String) : Option (Set Region) :=
  if nodes.any (·.declares name) then some (g.touched nodes name) else none

theorem touched_mono {nodes' : List Node} (h : nodes' ⊆ nodes) : g.touched nodes' name ⊆ g.touched nodes name := by
  rintro r ⟨n, hn, htouches⟩
  exact ⟨n, h hn, htouches⟩

theorem touched_append (ms : List Node) :
    g.touched (nodes ++ ms) name = g.touched nodes name ∪ g.touched ms name := by
  ext r
  simp only [touched, Set.mem_union, Set.mem_ofPred_eq, mem_append, or_and_right, exists_or]

/-! ## One node -/

theorem regions?_declare (t : VariableRegions) (v : Variable) :
    (t.declare v).regions? name = (t.regions? name).or (if v.name == name then some ∅ else none) := by
  unfold declare regions?
  split
  case isTrue hhas =>
    split
    case isTrue hname =>
      -- the name is in the table already
      have hsome : (t.find? fun e => e.1.name == name).isSome := by
        rw [find?_isSome]
        obtain ⟨e, he, heq⟩ := any_eq_true.1 hhas
        exact ⟨e, he, by rwa [← LawfulBEq.eq_of_beq hname]⟩
      obtain ⟨e, he⟩ := Option.isSome_iff_exists.1 hsome
      rw [he]
      rfl
    case isFalse => rw [Option.or_none]
  case isFalse =>
    rw [find?_append, Option.map_or]
    rw [find?_singleton]
    split
    · simp
    · rfl

theorem regions?_declareAll (t : VariableRegions) (vs : List Variable) :
    regions? (vs.foldl declare t) name =
      (t.regions? name).or (if vs.any fun v => v.name == name then some ∅ else none) := by
  induction vs generalizing t with
  | nil => rw [any_nil, if_neg Bool.false_ne_true, Option.or_none]; rfl
  | cons v vs ih =>
    rw [foldl_cons, ih, regions?_declare, any_cons]
    cases v.name == name <;> simp

theorem regions?_noteRegions {n : Node} (hunit : n.isUnit) (t : VariableRegions) :
    (g.noteRegions n.id t).regions? name = (t.regions? name).map (· ∪ g.touched [n] name) := by
  unfold noteRegions regions?
  rw [find?_map, Option.map_map, Option.map_map]
  refine Option.map_congr fun e he => ?_
  obtain rfl : e.1.name = name := by simpa using find?_some he
  ext r
  simp [touched, mem_addAll, hunit, or_and_right, exists_or]

theorem regions?_variablesOf_concat (n : Node) :
    (g.variablesOf (nodes ++ [n])).regions? name =
      (((g.variablesOf nodes).regions? name).or (if n.declares name then some ∅ else none)).map
        (· ∪ g.touched [n] name) := by
  have hkind := n.isUnit_eq_isSome
  rw [variablesOf, foldl_concat]
  cases hbody : n.unit? with
  | none =>
    have hown : n.ownVariables = [] := by simp [Node.ownVariables, Node.locals, Node.globals, hbody]
    have htouched : g.touched [n] name = ∅ := by
      simp [touched, hkind, hbody]
    rw [Node.declares, hown, any_nil, if_neg Bool.false_ne_true, Option.or_none, htouched]
    simp only [Set.union_empty, Option.map_id']
    rfl
  | some b =>
    have hunit : n.isUnit := by rw [hkind, hbody]; rfl
    have hown : n.ownVariables = b.locals ++ b.globals := by
      simp [Node.ownVariables, Node.locals, Node.globals, hbody]
    rw [Node.declares, hown, ← regions?_declareAll, ← regions?_noteRegions hunit]
    rfl

/-! ## All nodes -/

theorem regionsUnder_dropWhile_concat (n : Node) :
    g.regionsUnder ((nodes ++ [n]).dropWhile fun n => !n.declares name) name =
      ((g.regionsUnder (nodes.dropWhile fun n => !n.declares name) name).or
        (if n.declares name then some ∅ else none)).map (· ∪ g.touched [n] name) := by
  rw [dropWhile_append]
  cases hrest : nodes.dropWhile fun n => !n.declares name with
  | nil =>
    cases hn : n.declares name <;> simp [regionsUnder, hn]
  | cons m ms =>
    have hm : m.declares name := by
      have hhead := head?_dropWhile_not (fun n : Node => !n.declares name) nodes
      rw [hrest] at hhead
      simpa using hhead
    rw [isEmpty_cons, if_neg Bool.false_ne_true, regionsUnder, regionsUnder, touched_append]
    simp [hm]

theorem regions?_variablesOf (g : Graph) (nodes : List Node) (name : Option String) :
    (g.variablesOf nodes).regions? name = g.regionsUnder (nodes.dropWhile fun n => !n.declares name) name := by
  induction nodes using reverseRecOn with
  | nil => rfl
  | append_singleton nodes n ih => rw [regions?_variablesOf_concat, regionsUnder_dropWhile_concat, ih]

/-- The variables of nodes have the regions that the nodes touch from their first declaration on. In
every order of the nodes these are all that they touch under the name, if and only if the nodes that
declare a variable touch all of them. -/
theorem variablesOf_regions_perm_iff (g : Graph) (nodes : List Node) :
    (∀ name, (g.variablesOf nodes).regions? name =
      g.regionsUnder (nodes.dropWhile fun n => !n.declares name) name) ∧
      ((∀ nodes', nodes'.Perm nodes → ∀ name, (g.variablesOf nodes').regions? name = g.regionsUnder nodes name) ↔
        ∀ name, nodes.any (·.declares name) = true →
          g.touched nodes name ⊆ g.touched (nodes.filter (·.declares name)) name) := by
  refine ⟨g.regions?_variablesOf nodes, fun h name hname => ?_, fun h nodes' hperm name => ?_⟩
  · -- the nodes that declare the variable come last
    have hperm : (nodes.filter (fun n => !n.declares name) ++ nodes.filter (·.declares name)).Perm nodes :=
      perm_append_comm.trans (filter_append_perm _ nodes)
    have hlate := h _ hperm name
    have hnone : (nodes.filter fun n => !n.declares name).dropWhile (fun n => !n.declares name) = [] :=
      dropWhile_eq_nil_iff.2 fun n hn => (mem_filter.1 hn).2
    rw [regions?_variablesOf, dropWhile_append, hnone, isEmpty_nil, if_pos rfl, regionsUnder, regionsUnder] at hlate
    split at hlate
    · rw [← Option.some_inj.1 hlate]
      exact touched_mono (dropWhile_sublist _).subset
    · cases hlate
  · rw [regions?_variablesOf, regionsUnder, regionsUnder]
    have hlate : (nodes'.dropWhile fun n => !n.declares name) ⊆ nodes :=
      fun n hn => hperm.subset ((dropWhile_sublist _).subset hn)
    by_cases hname : nodes.any (·.declares name) = true
    · have hdeclaring : nodes.filter (·.declares name) ⊆ nodes'.dropWhile fun n => !n.declares name := by
        intro n hn
        obtain ⟨hn, hdeclares⟩ := mem_filter.1 hn
        replace hn := hperm.symm.subset hn
        rw [← takeWhile_append_dropWhile (l := nodes'), mem_append] at hn
        refine hn.resolve_left fun hn => ?_
        simpa [hdeclares] using mem_takeWhile_imp hn
      obtain ⟨n, hn, hdeclares⟩ := any_eq_true.1 hname
      have hany : (nodes'.dropWhile fun n => !n.declares name).any (·.declares name) = true :=
        any_eq_true.2 ⟨n, hdeclaring (mem_filter.2 ⟨hn, hdeclares⟩), hdeclares⟩
      rw [if_pos hany, if_pos hname]
      exact congrArg some ((touched_mono hlate).antisymm ((h name hname).trans (touched_mono hdeclaring)))
    · have hany : ¬ (nodes'.dropWhile fun n => !n.declares name).any (·.declares name) = true := by
        intro hany
        obtain ⟨n, hn, hdeclares⟩ := any_eq_true.1 hany
        exact hname (any_eq_true.2 ⟨n, hlate hn, hdeclares⟩)
      rw [if_neg hany, if_neg hname]

/-- The first unit reads `x`, which the second one declares. -/
def earlyUnit : Node := summingUnit "1:1" 1 2 []

def lateUnit : Node := summingUnit "1:2" 2 3 [definedAt "x" 1 3]

/-- The value that is read is written by a third unit. -/
def lateGraph : Graph where
  nodes := ⟨[("1:1", earlyUnit), ("1:2", lateUnit), ("1:3", summingUnit "1:3" 3 4 [definedAt "x" 1 3])]⟩
  links := [⟨"1:1", "1:3", [(0, summingDependence .readAfterWrite "x" "m" "1:4" "1:2")]⟩]

/-- In one order of the units the variable has the region, in the other order it has none. -/
theorem not_variablesOf_regions_perm_lateGraph :
    (lateGraph.variablesOf [lateUnit, earlyUnit]).map (·.2) = [["m"]] ∧
      (lateGraph.variablesOf [earlyUnit, lateUnit]).map (·.2) = [[]] ∧
      (lateGraph.variablesOf [earlyUnit, lateUnit]).regions? (some "x") ≠
        lateGraph.regionsUnder [lateUnit, earlyUnit] (some "x") := by
  refine ⟨rfl, rfl, fun h => ?_⟩
  have hmem : "m" ∈ lateGraph.touched [lateUnit, earlyUnit] (some "x") :=
    ⟨earlyUnit, by simp, rfl, _, mem_cons_self, rfl, rfl⟩
  rw [← Option.some_inj.1 h] at hmem
  cases hmem

end Graph

end ParallelPatterns
