import Mathlib.Data.List.Induction
import Mathlib.Data.List.Nodup
import ParallelPatterns.Proofs.Computation
import ParallelPatterns.Proofs.Cutting

/-!
# Variables from outside of a loop

The variables of a loop that are defined outside of it are picked by the texts of their definitions,
and of those with one name the first one is kept. Here it is said in numbers which ones are picked:
a line seems to lie inside of a node if its digits stand between those of the first and last line,
and a file seems to be file 0 if its number ends in zero. From this it follows exactly when the
picked variables are those from outside.
-/

namespace ParallelPatterns

open List

variable {vs : List Variable} {v : Variable}

/-- Adds a variable whose name is new. -/
def keepNew (vs : List Variable) (v : Variable) : List Variable :=
  if vs.any fun w => w.name == v.name then vs else vs ++ [v]

/-- The first variable of each name. -/
def firstNamed (vs : List Variable) : List Variable := vs.foldl keepNew []

theorem firstNamed_concat (vs : List Variable) (v : Variable) :
    firstNamed (vs ++ [v]) = keepNew (firstNamed vs) v := by
  simp [firstNamed]

theorem mem_firstNamed_iff : v ∈ firstNamed vs ↔ (vs.find? fun w => w.name == v.name) = some v := by
  induction vs using reverseRecOn generalizing v with
  | nil => simp [firstNamed]
  | append_singleton vs w ih =>
    rw [firstNamed_concat, keepNew, find?_append]
    split
    · next hknown =>
      -- the name of the new variable is found before it
      obtain ⟨u, hu, hname⟩ := any_eq_true.1 hknown
      rw [ih]
      cases hfind : vs.find? fun x => x.name == v.name with
      | some x => simp
      | none =>
        have hne : ¬ (w.name == v.name) := by
          intro hw
          rw [ih, LawfulBEq.eq_of_beq hname, LawfulBEq.eq_of_beq hw, hfind] at hu
          cases hu
        simp [hne]
    · next hnew =>
      rw [mem_append, ih]
      cases hfind : vs.find? fun x => x.name == v.name with
      | some x =>
        have hne : v ≠ w := by
          rintro rfl
          have hname : x.name = v.name := by simpa using find?_some hfind
          have hx : x ∈ firstNamed vs := by rw [ih, hname, hfind]
          exact hnew (any_eq_true.2 ⟨x, hx, by simp [hname]⟩)
        simp [hne]
      | none =>
        by_cases hw : w.name = v.name
        · simp [hw, eq_comm]
        · have hne : v ≠ w := fun heq => hw (by rw [heq])
          simp [hw, hne]

theorem mem_of_mem_firstNamed (h : v ∈ firstNamed vs) : v ∈ vs :=
  mem_of_find?_eq_some (mem_firstNamed_iff.1 h)

theorem exists_mem_firstNamed (h : v ∈ vs) : ∃ w ∈ firstNamed vs, w.name = v.name := by
  obtain ⟨w, hw⟩ := Option.isSome_iff_exists.1
    (find?_isSome.2 ⟨v, h, beq_self_eq_true v.name⟩ : (vs.find? fun w => w.name == v.name).isSome)
  have hname : w.name = v.name := by simpa using find?_some hw
  exact ⟨w, mem_firstNamed_iff.2 (by rw [hname, hw]), hname⟩

theorem eq_of_mem_firstNamed {w : Variable} (hv : v ∈ firstNamed vs) (hw : w ∈ firstNamed vs)
    (hname : v.name = w.name) : v = w := by
  rw [mem_firstNamed_iff] at hv hw
  rw [hname, hw] at hv
  exact (Option.some.inj hv).symm

theorem nodup_map_name_firstNamed (vs : List Variable) : ((firstNamed vs).map (·.name)).Nodup := by
  induction vs using reverseRecOn with
  | nil => exact nodup_nil
  | append_singleton vs v ih =>
    rw [firstNamed_concat, keepNew]
    split
    · exact ih
    · next hnew =>
      rw [map_append, map_singleton, ← concat_eq_append]
      refine ih.concat ?_
      simpa [any_eq_true] using hnew

/-! ### The variables of a part of the program -/

theorem map_fst_declare (t : VariableRegions) (v : Variable) :
    (t.declare v).map (·.1) = keepNew (t.map (·.1)) v := by
  rw [keepNew, any_map]
  show (if t.has v then t else t ++ [(v, [])]).map (·.1) = if t.has v then _ else _
  split <;> simp

theorem map_fst_declareAll (t : VariableRegions) (vs : List Variable) :
    (vs.foldl VariableRegions.declare t).map (·.1) = vs.foldl keepNew (t.map (·.1)) := by
  induction vs generalizing t with
  | nil => rfl
  | cons v vs ih => rw [foldl_cons, foldl_cons, ih, map_fst_declare]

namespace Graph

theorem map_fst_variablesOf (g : Graph) (nodes : List Node) :
    (g.variablesOf nodes).map (·.1) = firstNamed (nodes.flatMap Node.ownVariables) := by
  induction nodes using reverseRecOn with
  | nil => rfl
  | append_singleton nodes n ih =>
    rw [variablesOf, foldl_concat, flatMap_append, firstNamed, foldl_append]
    show _ = (([n].flatMap Node.ownVariables).foldl keepNew (firstNamed (nodes.flatMap Node.ownVariables)))
    rw [← ih, flatMap_singleton]
    cases hunit : n.unit? with
    | none =>
      have hnone : n.ownVariables = [] := by simp [Node.ownVariables, Node.locals, Node.globals, hunit]
      rw [hnone]
      rfl
    | some b =>
      have hown : n.ownVariables = b.locals ++ b.globals := by
        simp [Node.ownVariables, Node.locals, Node.globals, hunit]
      rw [hown, ← map_fst_declareAll]
      exact map_map

end Graph

/-! ## Which variables are picked -/

variable {n : Node} {file line : Nat}

/-! ### Files whose numbers end in zero -/

theorem getLast?_toDigits (n : Nat) : (Nat.toDigits 10 n).getLast? = some (n % 10).digitChar := by
  rw [Nat.toDigits_eq_if (by decide)]
  split
  · next hlt =>
    rw [Nat.mod_eq_of_lt hlt]
    rfl
  · simp

theorem zero_suffix_toDigits_iff {n : Nat} : ['0'] <:+ Nat.toDigits 10 n ↔ 10 ∣ n := by
  have hzero : ∀ d < 10, d.digitChar = '0' ↔ d = 0 := by decide
  rw [singleton_suffix_iff_getLast?_eq_some, getLast?_toDigits, Option.some.injEq,
    hzero _ (Nat.mod_lt n (by decide)), Nat.dvd_iff_mod_eq_zero]

theorem has_zero_position_iff : Text.has "0:" (position file line) ↔ 10 ∣ file := by
  rw [Text.has_iff_isInfix, toList_position, ← zero_suffix_toDigits_iff]
  constructor
  · intro h
    have hcolon : ∀ n : Nat, ¬ "0:".toList <:+: Nat.toDigits 10 n := fun n hn =>
      colon_notMem_toDigits n (hn.subset (by decide))
    rcases infix_append_iff.1 h with h | h | ⟨before, behind, hsplit, hbefore, hbehind⟩
    · exact absurd h (hcolon file)
    · rcases infix_cons_iff.1 h with h | h
      · exact absurd (cons_prefix_cons.1 h).1 (by decide)
      · exact absurd h (hcolon line)
    · -- the colon is the first character behind the number of the file
      rcases before with _ | ⟨c, _ | ⟨d, rest⟩⟩
      · obtain rfl : "0:".toList = behind := hsplit
        exact absurd (cons_prefix_cons.1 hbehind).1 (by decide)
      · obtain rfl : '0' = c := (cons.inj hsplit).1
        exact hbefore
      · obtain rfl : ':' = d := (cons.inj (cons.inj hsplit).2).1
        exact absurd (hbefore.subset (by simp)) (colon_notMem_toDigits file)
  · rintro ⟨digits, hdigits⟩
    exact ⟨digits, Nat.toDigits 10 line, by rw [← hdigits]; simp⟩

/-! ### Definitions as texts -/

theorem position_ne_of_notMem {s : String} (hs : ':' ∉ s.toList) (file line : Nat) : position file line ≠ s := by
  rintro rfl
  rw [toList_position] at hs
  exact hs (by simp)

theorem not_definedBetween_globalVar (first : String) (file line : Nat) :
    Graph.definedBetween "GlobalVar" first (position file line) = false := by
  rw [Bool.eq_false_iff]
  intro hbetween
  have hlast := (definedBetween_iff.1 hbetween).2
  obtain ⟨d, ds, hdigits⟩ := exists_cons_of_ne_nil (ne_nil_of_length_pos (digitCount_pos file))
  have hd := isDigit_iff.1 (isDigit_of_mem_toDigits (n := file) (c := d) (by simp [hdigits]))
  rw [toList_position, hdigits] at hlast
  have hfirst : 'G' ≤ d := (cons_le_cons_iff_first.1 hlast).elim le_of_lt fun h => le_of_eq h.1
  have hle : 'G'.toNat ≤ d.toNat := hfirst
  exact absurd (Nat.le_trans hle hd.2) (by decide)

namespace Node

/-- The line of the file lies inside of the node. -/
def Holds (n : Node) (file line : Nat) : Prop := n.file = file ∧ n.startLine ≤ line ∧ line ≤ n.endLine

/-- The line of the file seems to lie inside of the node: its digits stand between those of the
first and of the last line. -/
def SeemsToHold (n : Node) (file line : Nat) : Prop :=
  n.file = file ∧ DigitsBefore n.startLine.toNat line ∧ DigitsBefore line n.endLine.toNat

instance (n : Node) (file line : Nat) : Decidable (n.Holds file line) := inferInstanceAs (Decidable (_ ∧ _ ∧ _))

/-- The numbers of a node are those of a place in a source. -/
structure IsPlaced (n : Node) : Prop where
  file : 0 ≤ n.file
  start : 0 ≤ n.startLine
  finish : 0 ≤ n.endLine

theorem IsPlaced.definedBetween_iff (h : n.IsPlaced) :
    Graph.definedBetween (position file line) n.start n.finish ↔ n.SeemsToHold file line := by
  obtain ⟨own, first, last, hfile, hfirst, hlast⟩ := exists_nat h.file h.start h.finish
  unfold Node.start Node.finish SeemsToHold
  rw [hfile, hfirst, hlast, definedBetween_position_iff, toDigits_le_iff, toDigits_le_iff,
    Int.toNat_natCast, Int.toNat_natCast, Int.ofNat_inj, eq_comm]

theorem IsPlaced.not_definedBetween_globalVar (h : n.IsPlaced) :
    Graph.definedBetween "GlobalVar" n.start n.finish = false := by
  obtain ⟨own, first, last, hfile, -, hlast⟩ := exists_nat h.file h.start h.finish
  unfold Node.finish
  rw [hfile, hlast]
  exact ParallelPatterns.not_definedBetween_globalVar n.start own last

end Node

namespace Graph

variable {g : Graph} {loop : Node} {withGlobals : Bool} {v : Variable}

/-- The variables of the units below a loop. -/
def variablesBelow (g : Graph) (loop : Node) : List Variable := (g.subtreeUnits loop).flatMap Node.ownVariables

/-- The loop and the units below it. -/
def scopes (g : Graph) (loop : Node) : List Node := loop :: g.subtreeUnits loop

/-- The variable is a reduction variable of the loop. -/
def ReducedIn (g : Graph) (loop : Node) (v : Variable) : Prop :=
  ∃ records, g.reductions = some records ∧ ∃ r ∈ records, r.loopLine = loop.start ∧ some r.name = v.name

/-- The variable comes from outside of the loop: it is a global one that counts, or it is defined on
a line that lies neither inside of the loop nor inside of a unit below it. -/
inductive FromOutside (g : Graph) (loop : Node) (withGlobals : Bool) (v : Variable) : Prop
  | global (defined : v.defLine = some "GlobalVar") (counts : withGlobals ∨ g.ReducedIn loop v)
  | placed {file line : Nat} (defined : v.defLine = some (position file line)) (known : file ≠ 0)
      (outside : ∀ n ∈ g.scopes loop, ¬ n.Holds file line)

/-- The variable seems to come from outside of the loop. -/
inductive SeemsOutside (g : Graph) (loop : Node) (withGlobals : Bool) (v : Variable) : Prop
  | global (defined : v.defLine = some "GlobalVar") (counts : withGlobals ∨ g.ReducedIn loop v)
  | placed {file line : Nat} (defined : v.defLine = some (position file line)) (known : ¬ 10 ∣ file)
      (outside : ∀ n ∈ g.scopes loop, ¬ n.SeemsToHold file line)

/-- The loop and the units below it have places, and each of their variables is defined on a line,
is a global one, or is not known to be defined. -/
structure Located (g : Graph) (loop : Node) : Prop where
  scopes : ∀ n ∈ g.scopes loop, n.IsPlaced
  definitions : ∀ v ∈ g.variablesBelow loop, v.defLine = some "LineNotFound" ∨ v.defLine = some "GlobalVar" ∨
    ∃ file line : Nat, v.defLine = some (position file line)

/-! ### What is picked -/

theorem isReductionVariable_eq_ok_true_iff {line : LineId} {name : Option String} :
    g.isReductionVariable line name = .ok true ↔
      ∃ records, g.reductions = some records ∧ ∃ r ∈ records, r.loopLine = line ∧ some r.name = name := by
  rw [isReductionVariable, bind_eq_ok_iff, reductionList]
  cases g.reductions with
  | none => simp
  | some records => simp [pure, Except.pure]

theorem mayCount_of_defLine {line : String} (hline : v.defLine = some line) :
    g.mayCount loop withGlobals v =
      if line = "LineNotFound" ∨ Text.has "0:" line then .ok false
      else if withGlobals = false ∧ line = "GlobalVar" then g.isReductionVariable loop.start v.name
      else .ok true := by
  simp only [mayCount, definitionOf, hline, Option.getDM, bind, Except.bind, Bool.or_eq_true,
    Bool.and_eq_true, beq_iff_eq, Bool.not_eq_true', pure, Except.pure]

theorem mayCount_position_iff (hline : v.defLine = some (position file line)) :
    g.mayCount loop withGlobals v = .ok true ↔ ¬ 10 ∣ file := by
  have hunknown := position_ne_of_notMem (s := "LineNotFound") (by decide) file line
  have hglobal := position_ne_of_notMem (s := "GlobalVar") (by decide) file line
  rw [mayCount_of_defLine hline]
  simp only [hunknown, hglobal, has_zero_position_iff, false_or]
  split <;> next hzero => simp [hzero]

theorem mayCount_globalVar_iff (hline : v.defLine = some "GlobalVar") :
    g.mayCount loop withGlobals v = .ok true ↔ withGlobals ∨ g.ReducedIn loop v := by
  rw [mayCount_of_defLine hline, if_neg (by decide)]
  cases withGlobals with
  | true => simp
  | false => simp [isReductionVariable_eq_ok_true_iff, ReducedIn]

theorem Located.seemsOutside_iff (h : g.Located loop) (hv : v ∈ g.variablesBelow loop) :
    g.mayCount loop withGlobals v = .ok true ∧
        (∀ n ∈ g.scopes loop, definedBetween (v.defLine.getD "") n.start n.finish = false) ↔
      g.SeemsOutside loop withGlobals v := by
  rcases h.definitions v hv with hline | hline | ⟨file, line, hline⟩
  · -- a temporary variable
    refine iff_of_false ?_ ?_
    · rintro ⟨hcounts, -⟩
      rw [mayCount_of_defLine hline] at hcounts
      cases hcounts
    · rintro (⟨hglobal, -⟩ | ⟨hplaced, -, -⟩)
      · rw [hline] at hglobal
        exact absurd hglobal (by decide)
      · rw [hline, Option.some.injEq] at hplaced
        exact position_ne_of_notMem (by decide) _ _ hplaced.symm
  · rw [mayCount_globalVar_iff hline, hline]
    constructor
    · rintro ⟨hcounts, -⟩
      exact .global hline hcounts
    · rintro (⟨-, hcounts⟩ | ⟨hplaced, -, -⟩)
      · exact ⟨hcounts, fun n hn => (h.scopes n hn).not_definedBetween_globalVar⟩
      · rw [hline, Option.some.injEq] at hplaced
        exact absurd hplaced.symm (position_ne_of_notMem (by decide) _ _)
  · rw [mayCount_position_iff hline, hline]
    have hscopes : (∀ n ∈ g.scopes loop, definedBetween (position file line) n.start n.finish = false) ↔
        ∀ n ∈ g.scopes loop, ¬ n.SeemsToHold file line := by
      refine forall₂_congr fun n hn => ?_
      rw [← (h.scopes n hn).definedBetween_iff, Bool.not_eq_true]
    rw [Option.getD_some, hscopes]
    constructor
    · rintro ⟨hfile, houtside⟩
      exact .placed hline hfile houtside
    · rintro (⟨hglobal, -⟩ | ⟨hplaced, hfile, houtside⟩)
      · rw [hline, Option.some.injEq] at hglobal
        exact absurd hglobal (position_ne_of_notMem (by decide) _ _)
      · rw [hline, Option.some.injEq] at hplaced
        obtain ⟨rfl, rfl⟩ := position_injective hplaced
        exact ⟨hfile, houtside⟩

theorem Located.mem_outsideVariables_iff (h : g.Located loop) {vars : VariableRegions}
    (hrun : g.outsideVariables loop withGlobals = .ok vars) :
    v ∈ vars.map (·.1) ↔ v ∈ firstNamed (g.variablesBelow loop) ∧ g.SeemsOutside loop withGlobals v := by
  obtain ⟨counted, hcounted, hvars⟩ := bind_eq_ok_iff.1 hrun
  cases hvars
  rw [variablesBelow, ← g.map_fst_variablesOf, mem_map, mem_map]
  have hscopes : ∀ w : Variable, (!definedBetween (w.defLine.getD "") loop.start loop.finish &&
      (g.subtreeUnits loop).all fun u => !definedBetween (w.defLine.getD "") u.start u.finish) ↔
        ∀ n ∈ g.scopes loop, definedBetween (w.defLine.getD "") n.start n.finish = false := by
    intro w
    simp [Graph.scopes]
  have hbelow : ∀ e ∈ g.variablesOf (g.subtreeUnits loop), e.1 ∈ g.variablesBelow loop := by
    intro e he
    refine mem_of_mem_firstNamed ?_
    rw [variablesBelow, ← g.map_fst_variablesOf]
    exact mem_map.2 ⟨e, he, rfl⟩
  constructor
  · rintro ⟨e, he, rfl⟩
    obtain ⟨he, hscope⟩ := mem_filter.1 he
    obtain ⟨he, hcounts⟩ := (mem_of_filterM_eq_ok hcounted e).1 he
    exact ⟨⟨e, he, rfl⟩, (h.seemsOutside_iff (hbelow e he)).1 ⟨hcounts, (hscopes e.1).1 hscope⟩⟩
  · rintro ⟨⟨e, he, rfl⟩, hseems⟩
    obtain ⟨hcounts, hscope⟩ := (h.seemsOutside_iff (hbelow e he)).2 hseems
    exact ⟨e, mem_filter.2 ⟨(mem_of_filterM_eq_ok hcounted e).2 ⟨he, hcounts⟩, (hscopes e.1).2 hscope⟩, rfl⟩

theorem exists_mayCount_iff {line : String} (hline : v.defLine = some line) :
    (∃ b, g.mayCount loop withGlobals v = .ok b) ↔
      withGlobals ∨ g.reductions.isSome ∨ v.defLine ≠ some "GlobalVar" := by
  rw [mayCount_of_defLine hline, hline, Ne, Option.some.injEq]
  by_cases hglobal : line = "GlobalVar"
  · subst hglobal
    rw [if_neg (by decide), isReductionVariable, reductionList]
    cases withGlobals with
    | true => simp
    | false => cases g.reductions <;> simp [bind, Except.bind, pure, Except.pure]
  · simp only [hglobal]
    split <;> simp

theorem Located.exists_outsideVariables_iff (h : g.Located loop) :
    (∃ vars, g.outsideVariables loop withGlobals = .ok vars) ↔
      withGlobals ∨ g.reductions.isSome ∨ ∀ v ∈ firstNamed (g.variablesBelow loop),
        v.defLine ≠ some "GlobalVar" := by
  have hdefined : ∀ v ∈ firstNamed (g.variablesBelow loop), ∃ line, v.defLine = some line := by
    intro v hv
    rcases h.definitions v (mem_of_mem_firstNamed hv) with hline | hline | ⟨file, line, hline⟩
    all_goals exact ⟨_, hline⟩
  have hall : (∃ vars, g.outsideVariables loop withGlobals = .ok vars) ↔
      ∀ v ∈ firstNamed (g.variablesBelow loop), ∃ b, g.mayCount loop withGlobals v = .ok b := by
    rw [variablesBelow, ← g.map_fst_variablesOf, forall_mem_map, ← exists_filterM_eq_ok_iff]
    constructor
    · rintro ⟨vars, hvars⟩
      obtain ⟨counted, hcounted, -⟩ := bind_eq_ok_iff.1 hvars
      exact ⟨counted, hcounted⟩
    · rintro ⟨counted, hcounted⟩
      exact ⟨_, bind_eq_ok_iff.2 ⟨counted, hcounted, rfl⟩⟩
  rw [hall]
  constructor
  · intro hcounts
    by_contra hnot
    obtain ⟨hglobals, hreductions, v, hv, hline⟩ : withGlobals ≠ true ∧ g.reductions.isSome ≠ true ∧
        ∃ v ∈ firstNamed (g.variablesBelow loop), v.defLine = some "GlobalVar" := by
      simpa only [not_or, not_forall, exists_prop, not_not] using hnot
    rcases (exists_mayCount_iff hline).1 (hcounts v hv) with hsome | hsome | hsome
    · exact hglobals hsome
    · exact hreductions hsome
    · exact hsome hline
  · intro hknown v hv
    obtain ⟨line, hline⟩ := hdefined v hv
    exact (exists_mayCount_iff hline).2 (hknown.imp_right fun hknown => hknown.imp_right fun hnone => hnone v hv)

/-! ### When the picked variables are those from outside -/

/-- The picked variables are the first ones of their names that seem to come from outside. Their
names are those of the variables from outside exactly if each first variable of a name seems to come
from outside if and only if some variable of this name does. -/
theorem outsideVariables_names_iff (h : g.Located loop) (withGlobals : Bool) :
    ((∃ vars, g.outsideVariables loop withGlobals = .ok vars) ↔
        withGlobals = true ∨ g.reductions.isSome = true ∨
          ∀ v ∈ firstNamed (g.variablesBelow loop), v.defLine ≠ some "GlobalVar") ∧
      ∀ vars, g.outsideVariables loop withGlobals = .ok vars →
        (∀ v, v ∈ vars.map (·.1) ↔ v ∈ firstNamed (g.variablesBelow loop) ∧ g.SeemsOutside loop withGlobals v) ∧
        ((∀ name, name ∈ vars.map (·.1.name) ↔
            ∃ v ∈ g.variablesBelow loop, v.name = name ∧ g.FromOutside loop withGlobals v) ↔
          ∀ v ∈ firstNamed (g.variablesBelow loop), g.SeemsOutside loop withGlobals v ↔
            ∃ w ∈ g.variablesBelow loop, w.name = v.name ∧ g.FromOutside loop withGlobals w) := by
  refine ⟨h.exists_outsideVariables_iff, fun vars hvars => ?_⟩
  have hpicked : ∀ v, v ∈ vars.map (·.1) ↔
      v ∈ firstNamed (g.variablesBelow loop) ∧ g.SeemsOutside loop withGlobals v :=
    fun v => h.mem_outsideVariables_iff hvars
  refine ⟨hpicked, ?_⟩
  -- of each name there is one variable that can be picked
  have hname : ∀ v ∈ firstNamed (g.variablesBelow loop),
      v.name ∈ vars.map (·.1.name) ↔ g.SeemsOutside loop withGlobals v := by
    intro v hv
    constructor
    · intro hmem
      obtain ⟨e, he, heq⟩ := mem_map.1 hmem
      obtain ⟨hfirst, hseems⟩ := (hpicked e.1).1 (mem_map.2 ⟨e, he, rfl⟩)
      rwa [← eq_of_mem_firstNamed hfirst hv heq]
    · intro hseems
      obtain ⟨e, he, heq⟩ := mem_map.1 ((hpicked v).2 ⟨hv, hseems⟩)
      exact mem_map.2 ⟨e, he, by rw [heq]⟩
  constructor
  · intro hexact v hv
    rw [← hname v hv, hexact]
  · intro hagree name
    constructor
    · intro hmem
      obtain ⟨e, he, rfl⟩ := mem_map.1 hmem
      obtain ⟨hfirst, hseems⟩ := (hpicked e.1).1 (mem_map.2 ⟨e, he, rfl⟩)
      exact (hagree e.1 hfirst).1 hseems
    · rintro ⟨w, hw, rfl, houtside⟩
      obtain ⟨v, hv, heq⟩ := exists_mem_firstNamed hw
      rw [← heq, hname v hv, hagree v hv]
      exact ⟨w, hw, heq.symm, houtside⟩

/-! ### A loop that declares a variable -/

/-- A loop on the given lines of file 1. -/
def declaringLoop (first last : Nat) : Node :=
  { id := "1:1", file := 1, number := 1, startLine := first, endLine := last, name := none,
    parentFunction := some "1:0", body := .loop {} }

/-- The only unit of the loop, on its last line, which uses two variables. -/
def declaringUnit (last : Nat) (x y : Variable) : Node :=
  { id := "1:2", file := 1, number := 2, startLine := last, endLine := last, name := none,
    parentFunction := some "1:0", body := .unit { locals := [x, y] } }

/-- The loop with its unit. -/
def declaringGraph (first last : Nat) (x y : Variable) : Graph where
  nodes := ⟨[("1:1", declaringLoop first last), ("1:2", declaringUnit last x y)]⟩
  links := [⟨"1:1", "1:2", [(0, { edge := .child })]⟩]

/-- A variable that is defined on a line of a file. -/
def definedAt (name : String) (file line : Nat) : Variable :=
  { type := some "i32", name := some name, defLine := some (position file line), size := 4 }

theorem scopes_declaringGraph (first last : Nat) (x y : Variable) :
    (declaringGraph first last x y).scopes (declaringLoop first last) =
      [declaringLoop first last, declaringUnit last x y] := rfl

theorem variablesBelow_declaringGraph (first last : Nat) (x y : Variable) :
    (declaringGraph first last x y).variablesBelow (declaringLoop first last) = [x, y] := rfl

theorem located_declaringGraph (first last file line file' line' : Nat) :
    (declaringGraph first last (definedAt "x" file line) (definedAt "y" file' line')).Located
      (declaringLoop first last) where
  scopes n hn := by
    rw [scopes_declaringGraph, mem_cons, mem_singleton] at hn
    rcases hn with rfl | rfl
    · exact ⟨Int.natCast_nonneg 1, Int.natCast_nonneg first, Int.natCast_nonneg last⟩
    · exact ⟨Int.natCast_nonneg 1, Int.natCast_nonneg last, Int.natCast_nonneg last⟩
  definitions v hv := by
    rw [variablesBelow_declaringGraph, mem_cons, mem_singleton] at hv
    rcases hv with rfl | rfl
    · exact .inr (.inr ⟨file, line, rfl⟩)
    · exact .inr (.inr ⟨file', line', rfl⟩)

theorem fromOutside_definedAt_iff {name : String} :
    g.FromOutside loop withGlobals (definedAt name file line) ↔
      file ≠ 0 ∧ ∀ n ∈ g.scopes loop, ¬ n.Holds file line := by
  constructor
  · rintro (⟨hline, -⟩ | ⟨hline, hknown, houtside⟩)
    · exact absurd (Option.some.inj hline) (position_ne_of_notMem (by decide) file line)
    · obtain ⟨rfl, rfl⟩ := position_injective (Option.some.inj hline)
      exact ⟨hknown, houtside⟩
  · rintro ⟨hknown, houtside⟩
    exact .placed rfl hknown houtside

/-- All lines have two digits: `x` is declared before the loop, `y` in it. -/
def twoDigitGraph : Graph := declaringGraph 12 19 (definedAt "x" 1 11) (definedAt "y" 1 13)

/-- The variable that is declared before the loop is picked, and the one that is declared in the
loop is not. -/
theorem outsideVariables_names_twoDigitGraph :
    twoDigitGraph.Located (declaringLoop 12 19) ∧
      ∃ vars, twoDigitGraph.outsideVariables (declaringLoop 12 19) false = .ok vars ∧
        ∀ name, name ∈ vars.map (·.1.name) ↔
          ∃ v ∈ twoDigitGraph.variablesBelow (declaringLoop 12 19),
            v.name = name ∧ twoDigitGraph.FromOutside (declaringLoop 12 19) false v := by
  have hlocated := located_declaringGraph 12 19 1 11 1 13
  obtain ⟨-, hexact⟩ := outsideVariables_names_iff hlocated false
  obtain ⟨hpicked, hnames⟩ := hexact [(definedAt "x" 1 11, [])] rfl
  refine ⟨hlocated, _, rfl, hnames.2 fun v hv => ?_⟩
  rw [← and_iff_right (b := SeemsOutside _ _ _ v) hv, ← hpicked]
  revert v
  simp only [variablesBelow_declaringGraph, exists_mem_cons_iff, not_mem_nil, false_and,
    exists_false, fromOutside_definedAt_iff, scopes_declaringGraph]
  decide

/-- The loop goes over from line 9 to line 12: `x` is declared in it on line 10, `y` in file 10. -/
def nextDigitGraph : Graph := declaringGraph 9 12 (definedAt "x" 1 10) (definedAt "y" 10 3)

/-- The variable that is declared in the loop is picked, and the one from outside is not. -/
theorem outsideVariables_names_nextDigitGraph :
    ∃ vars, nextDigitGraph.outsideVariables (declaringLoop 9 12) false = .ok vars ∧
      some "x" ∈ vars.map (·.1.name) ∧
      ¬ nextDigitGraph.FromOutside (declaringLoop 9 12) false (definedAt "x" 1 10) ∧
      some "y" ∉ vars.map (·.1.name) ∧
      nextDigitGraph.FromOutside (declaringLoop 9 12) false (definedAt "y" 10 3) := by
  refine ⟨[(definedAt "x" 1 10, [])], rfl, by decide, ?_, by decide, ?_⟩
  · rw [fromOutside_definedAt_iff, nextDigitGraph, scopes_declaringGraph]
    decide
  · rw [fromOutside_definedAt_iff, nextDigitGraph, scopes_declaringGraph]
    decide

end Graph

end ParallelPatterns
