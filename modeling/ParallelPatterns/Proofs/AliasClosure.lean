import Mathlib.Data.Set.Prod
import Mathlib.Order.Bounds.Defs
import ParallelPatterns.Proofs.Subtree

/-!
# Names and regions that belong together

An update inside of a function gets all names of its regions and all regions of its names, until
nothing is added. A round stays inside of every pair of sets that is closed under both rules, and a
round that adds nothing has reached such a pair. Each other round adds a name or a region of the
function, of which there are finitely many.
-/

namespace ParallelPatterns

open List RegionNames Table

variable {names : RegionNames} {own : Table Region (List String)} {f : NodeId} {ns : List String} {rs : List Region}

/-! ## Rounds -/

/-- The sets have with a region all names that it has, and with a name all regions that have it. -/
structure ClosedUnder (has : Region → String → Prop) (p : Set String × Set Region) : Prop where
  names : ∀ r x, has r x → r ∈ p.2 → x ∈ p.1
  regions : ∀ r x, has r x → x ∈ p.1 → r ∈ p.2

def HasName (own : Table Region (List String)) (r : Region) (x : String) : Prop :=
  ∃ xs, own.get? r = some xs ∧ x ∈ xs

/-- The names and regions of two lists, as sets. -/
def extent (ns : List String) (rs : List Region) : Set String × Set Region := ({x | x ∈ ns}, {r | r ∈ rs})

variable {p : Set String × Set Region}

theorem extent_le_iff : extent ns rs ≤ p ↔ (∀ x ∈ ns, x ∈ p.1) ∧ ∀ r ∈ rs, r ∈ p.2 :=
  Iff.rfl

def namesOfRegions (own : Table Region (List String)) (rs : List Region) : List String :=
  rs.flatMap fun r => own.getD r []

def regionsOfNames (own : Table Region (List String)) (ns : List String) : List Region :=
  (own.entries.filter fun e => e.2.any ns.contains).map (·.1)

theorem mem_namesOfRegions_iff {x : String} : x ∈ namesOfRegions own rs ↔ ∃ r ∈ rs, HasName own r x := by
  rw [namesOfRegions, mem_flatMap]
  refine exists_congr fun r => and_congr_right fun _ => ?_
  rw [Table.getD, HasName]
  cases own.get? r <;> simp

theorem mem_regionsOfNames_iff (hkeys : own.keys.Nodup) {r : Region} :
    r ∈ regionsOfNames own ns ↔ ∃ x ∈ ns, HasName own r x := by
  simp only [regionsOfNames, mem_map, mem_filter, any_eq_true, contains_iff_mem]
  constructor
  · rintro ⟨e, ⟨he, x, hx, hmem⟩, rfl⟩
    exact ⟨x, hmem, e.2, get?_of_mem hkeys he, hx⟩
  · rintro ⟨x, hmem, xs, hget, hx⟩
    exact ⟨(r, xs), ⟨mem_of_get? hget, x, hx, hmem⟩, rfl⟩

theorem length_le_addAll {α : Type} [BEq α] (xs ys : List α) : xs.length ≤ (addAll xs ys).length := by
  refine foldlRecOn ys addNew (motive := fun zs => xs.length ≤ zs.length) (Nat.le_refl _) fun zs hzs z _ => ?_
  unfold addNew
  split
  · exact hzs
  · rw [length_append]
    exact Nat.le_add_right_of_le hzs

theorem length_addAll_eq_iff {α : Type} [BEq α] [LawfulBEq α] (xs ys : List α) :
    (addAll xs ys).length = xs.length ↔ ys ⊆ xs := by
  induction ys generalizing xs with
  | nil => simp [addAll]
  | cons y ys ih =>
    have hstep : addAll xs (y :: ys) = addAll (addNew xs y) ys := rfl
    rw [hstep, cons_subset]
    by_cases hy : y ∈ xs
    · rw [show addNew xs y = xs from if_pos (contains_iff_mem.2 hy), ih, and_iff_right hy]
    · have hgrown : addNew xs y = xs ++ [y] := if_neg (by simpa using hy)
      have hle := length_le_addAll (xs ++ [y]) ys
      rw [length_append, length_singleton] at hle
      simp only [hy, false_and, iff_false, hgrown]
      omega

def moreNames (own : Table Region (List String)) (ns : List String) (rs : List Region) : List String :=
  addAll ns (namesOfRegions own rs)

def moreRegions (own : Table Region (List String)) (ns : List String) (rs : List Region) : List Region :=
  addAll rs (regionsOfNames own (moreNames own ns rs))

def Settled (own : Table Region (List String)) (ns : List String) (rs : List Region) : Prop :=
  namesOfRegions own rs ⊆ ns ∧ regionsOfNames own (moreNames own ns rs) ⊆ rs

theorem aliasesGo_of_settled (h : Settled own ns rs) :
    own.aliasesGo ns rs = some (moreNames own ns rs, moreRegions own ns rs) := by
  have hnames := (length_addAll_eq_iff _ _).2 h.1
  have hregions := (length_addAll_eq_iff _ _).2 h.2
  rw [aliasesGo.eq_def]
  exact if_pos (Bool.and_eq_true_iff.2 ⟨beq_iff_eq.2 hnames, beq_iff_eq.2 hregions⟩)

theorem aliasesGo_of_not_settled (h : ¬Settled own ns rs) :
    own.aliasesGo ns rs = own.aliasesGo (moreNames own ns rs) (moreRegions own ns rs) := by
  rw [aliasesGo.eq_def]
  refine if_neg fun hsame => h ?_
  obtain ⟨hnames, hregions⟩ := Bool.and_eq_true_iff.1 hsame
  exact ⟨(length_addAll_eq_iff _ _).1 (beq_iff_eq.1 hnames), (length_addAll_eq_iff _ _).1 (beq_iff_eq.1 hregions)⟩

theorem extent_le_round : extent ns rs ≤ extent (moreNames own ns rs) (moreRegions own ns rs) :=
  ⟨fun _ hx => mem_addAll.2 (.inl hx), fun _ hr => mem_addAll.2 (.inl hr)⟩

section

variable (hkeys : own.keys.Nodup)
include hkeys

theorem round_le (hp : ClosedUnder (HasName own) p) (hle : extent ns rs ≤ p) :
    extent (moreNames own ns rs) (moreRegions own ns rs) ≤ p := by
  rw [extent_le_iff] at hle ⊢
  have hnames : ∀ x ∈ moreNames own ns rs, x ∈ p.1 := by
    intro x hx
    rcases mem_addAll.1 hx with hx | hx
    · exact hle.1 x hx
    · obtain ⟨r, hr, hname⟩ := mem_namesOfRegions_iff.1 hx
      exact hp.names r x hname (hle.2 r hr)
  refine ⟨hnames, fun r hr => ?_⟩
  rcases mem_addAll.1 hr with hr | hr
  · exact hle.2 r hr
  · obtain ⟨x, hx, hname⟩ := (mem_regionsOfNames_iff hkeys).1 hr
    exact hp.regions r x hname (hnames x hx)

theorem Settled.closed (h : Settled own ns rs) :
    ClosedUnder (HasName own) (extent (moreNames own ns rs) (moreRegions own ns rs)) where
  names r x hname hr := by
    have hr : r ∈ rs := (mem_addAll.1 hr).elim id fun hr => h.2 hr
    exact mem_addAll.2 (.inr (mem_namesOfRegions_iff.2 ⟨r, hr, hname⟩))
  regions r x hname hx := mem_addAll.2 (.inr ((mem_regionsOfNames_iff hkeys).2 ⟨x, hx, hname⟩))

def missing (own : Table Region (List String)) (ns : List String) (rs : List Region) : Nat :=
  (own.values.flatten.filter fun x => !ns.contains x).length + (own.keys.filter fun r => !rs.contains r).length

section

variable {α : Type} [BEq α] [LawfulBEq α] {all xs ys : List α}
omit hkeys

theorem not_contains_of_addAll {x : α} (h : !(addAll xs ys).contains x) : !xs.contains x := by
  simp only [Bool.not_eq_true', contains_eq_mem, decide_eq_false_iff_not, mem_addAll, not_or] at h ⊢
  exact h.1

theorem length_filter_missing_le :
    (all.filter fun x => !(addAll xs ys).contains x).length ≤ (all.filter fun x => !xs.contains x).length :=
  (monotone_filter_right all fun _ => not_contains_of_addAll).length_le

theorem length_filter_missing_lt {y : α} (hy : y ∈ ys) (hnew : y ∉ xs) (hall : y ∈ all) :
    (all.filter fun x => !(addAll xs ys).contains x).length < (all.filter fun x => !xs.contains x).length :=
  length_filter_lt (fun _ => not_contains_of_addAll) hall (by simpa using hnew) (by simp [mem_addAll, hy])

end

theorem missing_lt (h : ¬Settled own ns rs) :
    missing own (moreNames own ns rs) (moreRegions own ns rs) < missing own ns rs := by
  by_cases hnew : namesOfRegions own rs ⊆ ns
  · obtain ⟨r, hr, hnotin⟩ : ∃ r ∈ regionsOfNames own (moreNames own ns rs), r ∉ rs := by
      by_contra hnone
      exact h ⟨hnew, fun r hr => by_contra fun hnotin => hnone ⟨r, hr, hnotin⟩⟩
    obtain ⟨x, -, xs, hget, -⟩ := (mem_regionsOfNames_iff hkeys).1 hr
    have hkey : r ∈ own.keys := mem_keys_iff.2 (by rw [hget]; rfl)
    exact Nat.add_lt_add_of_le_of_lt length_filter_missing_le (length_filter_missing_lt hr hnotin hkey)
  · obtain ⟨x, hx, hnotin⟩ : ∃ x ∈ namesOfRegions own rs, x ∉ ns := by simpa [subset_def] using hnew
    obtain ⟨r, -, xs, hget, hmem⟩ := mem_namesOfRegions_iff.1 hx
    have hvalue : x ∈ own.values.flatten := mem_flatten.2 ⟨xs, mem_map.2 ⟨(r, xs), mem_of_get? hget, rfl⟩, hmem⟩
    exact Nat.add_lt_add_of_lt_of_le (length_filter_missing_lt hx hnotin hvalue) length_filter_missing_le

theorem exists_aliasesGo (ns : List String) (rs : List Region) :
    ∃ ns' rs', own.aliasesGo ns rs = some (ns', rs') ∧
      IsLeast {p | extent ns rs ≤ p ∧ ClosedUnder (HasName own) p} (extent ns' rs') := by
  by_cases h : Settled own ns rs
  · exact ⟨_, _, aliasesGo_of_settled h, ⟨extent_le_round, h.closed hkeys⟩, fun p hp => round_le hkeys hp.2 hp.1⟩
  · obtain ⟨ns', rs', hrun, ⟨hle, hclosed⟩, hleast⟩ :=
      exists_aliasesGo (moreNames own ns rs) (moreRegions own ns rs)
    refine ⟨ns', rs', (aliasesGo_of_not_settled h).trans hrun, ⟨extent_le_round.trans hle, hclosed⟩, fun p hp => ?_⟩
    exact hleast ⟨round_le hkeys hp.2 hp.1, hp.2⟩
termination_by missing own ns rs
decreasing_by exact missing_lt hkeys h

end

/-! ## Updates -/

theorem inFunction_cons (e : Region × Table NodeId (List String))
    (es : List (Region × Table NodeId (List String))) (f : NodeId) : inFunction ⟨e :: es⟩ f =
      ⟨((e.2.get? f).map fun xs => (e.1, xs)).toList ++ (inFunction ⟨es⟩ f).entries⟩ := by
  cases hxs : e.2.get? f <;> simp [inFunction, hxs]

theorem get?_inFunction (hkeys : names.keys.Nodup) (r : Region) :
    (inFunction names f).get? r = (names.get? r).bind (·.get? f) := by
  obtain ⟨es⟩ := names
  induction es with
  | nil => rfl
  | cons e es ih =>
    obtain ⟨hnotin, hkeys⟩ := nodup_cons.1 hkeys
    rw [get?_cons, inFunction_cons]
    cases hxs : e.2.get? f with
    | none =>
      refine (ih hkeys).trans ?_
      split
      case isTrue hr =>
        -- the function does not know the region, which has no other entry
        have hnone : get? ⟨es⟩ r = none := by
          rw [← Option.not_isSome_iff_eq_none, ← mem_keys_iff]
          exact beq_iff_eq.1 hr ▸ hnotin
        rw [hnone, Option.bind_some, hxs, Option.bind_none]
      case isFalse => rfl
    | some xs =>
      refine (get?_cons _ _ _).trans ?_
      split
      · rw [Option.bind_some, hxs]
      · exact ih hkeys

theorem keys_inFunction_sublist (names : RegionNames) (f : NodeId) :
    (inFunction names f).keys <+ names.keys := by
  obtain ⟨es⟩ := names
  induction es with
  | nil => exact .slnil
  | cons e es ih =>
    rw [inFunction_cons]
    cases e.2.get? f with
    | none => exact ih.cons e.1
    | some xs => exact ih.cons_cons e.1

/-- The region has the name in the function. -/
def RegionNames.NamedIn (names : RegionNames) (f : NodeId) (r : Region) (x : String) : Prop :=
  ∃ byNode xs, names.get? r = some byNode ∧ byNode.get? f = some xs ∧ x ∈ xs

theorem hasName_inFunction (hkeys : names.keys.Nodup) (f : NodeId) :
    HasName (inFunction names f) = RegionNames.NamedIn names f := by
  funext r x
  simp only [HasName, get?_inFunction hkeys, Option.bind_eq_some_iff]
  refine propext ⟨?_, ?_⟩
  · rintro ⟨xs, ⟨byNode, hbyNode, hxs⟩, hx⟩
    exact ⟨byNode, xs, hbyNode, hxs, hx⟩
  · rintro ⟨byNode, xs, hbyNode, hxs, hx⟩
    exact ⟨xs, ⟨byNode, hbyNode, hxs⟩, hx⟩

namespace DeviceUpdate

variable {g : Graph} {u : DeviceUpdate} {function : Node}

/-- Both ends of the update lie in the function, which knows its regions. -/
structure InFunction (g : Graph) (names : RegionNames) (u : DeviceUpdate) (function : Node) : Prop where
  source : ∃ n, g.node? u.source = some n ∧ g.parentFunction n = .ok function
  sink : ∃ n, g.node? u.sink = some n ∧ g.parentFunction n = .ok function
  known : ∀ r ∈ u.regions, ∃ byNode xs, names.get? r = some byNode ∧ byNode.get? function.id = some xs

theorem withAliases_eq (hkeys : names.keys.Nodup) (h : u.InFunction g names function)
    (hrun : (inFunction names function.id).aliasesGo u.names u.regions = some (ns, rs)) :
    ∃ ds, u.withAliases g names = .ok { u with names := ns, regions := rs, dependences := ds } := by
  obtain ⟨source, hsource, hsourceIn⟩ := h.source
  obtain ⟨sink, hsink, hsinkIn⟩ := h.sink
  have hknown : (u.regions.any fun r => !(inFunction names function.id).contains r) = false := by
    rw [any_eq_false]
    intro r hr
    obtain ⟨byNode, xs, hbyNode, hxs⟩ := h.known r hr
    simp [contains_eq_isSome, get?_inFunction hkeys, hbyNode, hxs]
  refine ⟨u.dependences.map fun d =>
    { d with names := addAll d.names ((rs.filter d.regions.contains).flatMap fun r =>
      (inFunction names function.id).getD r []) }, ?_⟩
  rw [withAliases, Graph.node, hsource, Graph.node, hsink]
  simp only [bind, Except.bind, hsourceIn, hsinkIn, Node.alike_refl, hknown, hrun]
  rfl

theorem exists_withAliases (hkeys : names.keys.Nodup) (h : u.InFunction g names function) :
    ∃ u', u.withAliases g names = .ok u' ∧
      IsLeast {p | extent u.names u.regions ≤ p ∧ ClosedUnder (RegionNames.NamedIn names function.id) p}
        (extent u'.names u'.regions) ∧
      ∃ ds, u' = { u with names := u'.names, regions := u'.regions, dependences := ds } := by
  obtain ⟨ns, rs, hrun, hleast⟩ :=
    exists_aliasesGo ((keys_inFunction_sublist names function.id).nodup hkeys) u.names u.regions
  obtain ⟨ds, hu⟩ := withAliases_eq hkeys h hrun
  rw [hasName_inFunction hkeys] at hleast
  exact ⟨_, hu, hleast, ds, rfl⟩

/-- Updates whose ends lie in one function, which knows their regions, get the least sets of names
and regions that hold their own and have with a region all its names in the function, and with a
name all regions that have it there. -/
theorem withAliases_least (hkeys : names.keys.Nodup) {us : List DeviceUpdate}
    (hus : ∀ u ∈ us, ∃ function, u.InFunction g names function) :
    ∃ us', us.mapM (withAliases g names) = .ok us' ∧
      Forall₂ (fun u u' => ∀ function, u.InFunction g names function →
        IsLeast {p | extent u.names u.regions ≤ p ∧ ClosedUnder (RegionNames.NamedIn names function.id) p}
          (extent u'.names u'.regions) ∧
        ∃ ds, u' = { u with names := u'.names, regions := u'.regions, dependences := ds }) us us' := by
  refine exists_forall₂_mapM fun u hu => ?_
  obtain ⟨function, h⟩ := hus u hu
  obtain ⟨u', hu', -⟩ := exists_withAliases hkeys h
  refine ⟨u', hu', fun function h => ?_⟩
  obtain ⟨u'', hu'', hleast⟩ := exists_withAliases hkeys h
  obtain rfl : u'' = u' := Except.ok.inj (hu''.symm.trans hu')
  exact hleast

/-- A function with one unit. -/
def oneUnit : Graph :=
  .ofEdges [Graph.numbered "1:0" 0 (.function {}), Graph.numbered "1:1" 1 (.unit {})] [("1:0", "1:1", .child)]

/-- The first two regions share a name in the function, the third one shares none with them. -/
def sharedNames : RegionNames :=
  ⟨[("m", ⟨[("1:0", ["a", "b"])]⟩), ("k", ⟨[("1:0", ["b", "c"])]⟩), ("l", ⟨[("1:0", ["d"])]⟩)]⟩

/-- An update of the first region gets the second one and the names of both, and no other name. -/
theorem withAliases_least_sharedNames :
    let u : DeviceUpdate :=
      { source := "1:1", sink := "1:1", regions := ["m"], kind := .toDevice, lastWrites := [] }
    let f := Graph.numbered "1:0" 0 (.function {})
    sharedNames.keys.Nodup ∧ u.InFunction oneUnit sharedNames f ∧
      ∃ u', [u].mapM (withAliases oneUnit sharedNames) = .ok [u'] ∧ "k" ∈ u'.regions ∧ "c" ∈ u'.names ∧
        "d" ∉ u'.names := by
  intro u f
  have hkeys : sharedNames.keys.Nodup := by decide
  have hu : u.InFunction oneUnit sharedNames f :=
    ⟨⟨_, rfl, rfl⟩, ⟨_, rfl, rfl⟩, by rintro r hr; obtain rfl := mem_singleton.1 hr; exact ⟨_, _, rfl, rfl⟩⟩
  have hus : ∀ v ∈ [u], ∃ f, v.InFunction oneUnit sharedNames f := by simpa using ⟨f, hu⟩
  obtain ⟨us', hrun, hall⟩ := withAliases_least hkeys hus
  obtain ⟨u', us'', hu', hrest, rfl⟩ := forall₂_cons_left_iff.1 hall
  cases hrest
  obtain ⟨⟨⟨hown, hclosed⟩, hleast⟩, -⟩ := hu' f hu
  refine ⟨hkeys, hu, u', hrun, ?_⟩
  have hb : "b" ∈ u'.names := hclosed.names "m" "b" ⟨_, _, rfl, rfl, by decide⟩ (hown.2 (mem_singleton.2 rfl))
  have hk : "k" ∈ u'.regions := hclosed.regions "k" "b" ⟨_, _, rfl, rfl, by decide⟩ hb
  refine ⟨hk, hclosed.names "k" "c" ⟨_, _, rfl, rfl, by decide⟩ hk, fun hd => ?_⟩
  have hentries : ∀ e ∈ sharedNames.entries, ∀ x ∈ (e.2.get? f.id).getD [], (e.1 = "l" ↔ x = "d") := by decide
  have hapart : ∀ r x, RegionNames.NamedIn sharedNames f.id r x → (r = "l" ↔ x = "d") := by
    rintro r x ⟨byNode, xs, hget, hxs, hx⟩
    exact hentries (r, byNode) (Table.mem_of_get? hget) x (by rw [hxs]; exact hx)
  have hsets : ClosedUnder (RegionNames.NamedIn sharedNames f.id) ({x | x ≠ "d"}, {r | r ≠ "l"}) :=
    ⟨fun r x hname hr hx => hr ((hapart r x hname).2 hx), fun r x hname hx hr => hx ((hapart r x hname).1 hr)⟩
  exact (hleast ⟨by simp [extent_le_iff, u], hsets⟩).1 hd rfl

end DeviceUpdate

end ParallelPatterns
