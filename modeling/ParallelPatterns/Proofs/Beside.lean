import Mathlib.Data.List.TakeWhile
import ParallelPatterns.Proofs.Forest
import ParallelPatterns.Proofs.Relatives

/-!
# The units beside a node

The units to the left of a node of a function are met on a walk from left to right, and those to its
right on a walk from right to left, before the walk comes to the node. Where the nodes of the
function form a tree, the two walks divide the other units between them: those above the node are
met by both, those below it by none, and each of the others by exactly one.

Both walks visit an element before what lies below it. So their orders agree on elements of which
one lies below the other, and are opposite on all others.
-/

namespace ParallelPatterns.Search

open List

variable {α : Type} {next : α → List α} {p : α → Prop} {a b t u x y : α} {xs ys l l' r space : List α}

/-! ### Walks -/

/-- A walk through some elements, which goes through all that follows an element before it turns to
the next one, visits the elements `out`, in this order. -/
inductive Visits (next : α → List α) : List α → List α → Prop
  | nil : Visits next [] []
  | cons {x : α} {xs below rest : List α} (hbelow : Visits next (next x) below) (hrest : Visits next xs rest) :
      Visits next (x :: xs) (x :: below ++ rest)

theorem Visits.append (h : Visits next xs l) (h' : Visits next ys l') : Visits next (xs ++ ys) (l ++ l') := by
  induction h with
  | nil => exact h'
  | @cons x xs below rest hbelow _ _ ih =>
    have hsplit : x :: below ++ rest ++ l' = x :: below ++ (rest ++ l') := append_assoc _ _ _
    rw [hsplit]
    exact .cons hbelow ih

/-! ### Two orders -/

/-- Some elements with all that lies below them, from left to right and from right to left. -/
inductive Orders (next : α → List α) : List α → List α → List α → Prop
  | nil : Orders next [] [] []
  | cons {x : α} {xs l r l' r' : List α} (hbelow : Orders next (next x) l r) (hrest : Orders next xs l' r') :
      Orders next (x :: xs) (x :: l ++ l') (r' ++ x :: r)

namespace Orders

variable (h : Orders next xs l r)
include h

theorem left : Visits next xs l := by
  induction h with
  | nil => exact .nil
  | cons _ _ ihbelow ihrest => exact .cons ihbelow ihrest

theorem right : Visits (fun x => (next x).reverse) xs.reverse r := by
  induction h with
  | nil => exact .nil
  | @cons x xs l r l' r' _ _ ihbelow ihrest =>
    rw [reverse_cons]
    refine ihrest.append ?_
    simpa using Visits.cons ihbelow .nil

theorem perm : l ~ r := by
  induction h with
  | nil => exact .nil
  | @cons x xs l r l' r' _ _ ihbelow ihrest =>
    calc x :: l ++ l' ~ x :: r ++ r' := (ihbelow.cons x).append ihrest
      _ ~ r' ++ x :: r := perm_append_comm

theorem mem_iff : y ∈ l ↔ ∃ x ∈ xs, Leads next x y := by
  induction h with
  | nil => simp
  | @cons x xs l r l' r' _ _ ihbelow ihrest =>
    rw [mem_append, mem_cons, ihbelow, ihrest, ← under_iff_exists_child, ← leads_iff_eq_or_under]
    simp

theorem above_first (hab : Under next a b) (ha : a ∈ l) : [a, b] <+ l ∧ [a, b] <+ r := by
  induction h with
  | nil => cases ha
  | @cons x xs l r l' r' hbelow _ ihbelow ihrest =>
    rcases mem_append.1 ha with ha | ha
    · rcases mem_cons.1 ha with rfl | ha
      · have hb : b ∈ l := hbelow.mem_iff.2 (under_iff_exists_child.1 hab)
        have hb' : b ∈ r := hbelow.perm.mem_iff.1 hb
        exact ⟨((singleton_sublist.2 hb).cons_cons a).trans (sublist_append_left _ _),
          ((singleton_sublist.2 hb').cons_cons a).trans (sublist_append_right _ _)⟩
      · obtain ⟨hleft, hright⟩ := ihbelow ha
        exact ⟨(hleft.cons x).trans (sublist_append_left _ _), (hright.cons x).trans (sublist_append_right _ _)⟩
    · obtain ⟨hleft, hright⟩ := ihrest ha
      exact ⟨hleft.trans (sublist_append_right _ _), hright.trans (sublist_append_left _ _)⟩

end Orders

theorem pair_sublist_append_iff : [a, b] <+ l ++ r ↔ [a, b] <+ l ∨ (a ∈ l ∧ b ∈ r) ∨ [a, b] <+ r := by
  constructor
  · intro h
    obtain ⟨l₁, l₂, hsplit, h₁, h₂⟩ := sublist_append_iff.1 h
    match l₁, l₂, hsplit with
    | [], _, rfl => exact .inr (.inr h₂)
    | [_], _, rfl => exact .inr (.inl ⟨singleton_sublist.1 h₁, singleton_sublist.1 h₂⟩)
    | [_, _], [], rfl => exact .inl h₁
  · rintro (h | ⟨ha, hb⟩ | h)
    · exact h.trans (sublist_append_left _ _)
    · exact (singleton_sublist.2 ha).append (singleton_sublist.2 hb)
    · exact h.trans (sublist_append_right _ _)

theorem pair_sublist_cons_iff : [a, b] <+ x :: l ↔ (a = x ∧ b ∈ l) ∨ [a, b] <+ l := by
  rw [show x :: l = [x] ++ l from rfl, pair_sublist_append_iff]
  simp

theorem pair_sublist_total (ha : a ∈ l) (hb : b ∈ l) (hne : a ≠ b) : [a, b] <+ l ∨ [b, a] <+ l := by
  obtain ⟨i, hi, rfl⟩ := getElem_of_mem ha
  obtain ⟨j, hj, rfl⟩ := getElem_of_mem hb
  have hpairs := pairwise_iff_getElem.1 (pairwise_iff_forall_sublist.2 id : l.Pairwise fun x y => [x, y] <+ l)
  rcases lt_trichotomy i j with hij | rfl | hij
  · exact .inl (hpairs i j hi hj hij)
  · exact absurd rfl hne
  · exact .inr (hpairs j i hj hi hij)

theorem not_pair_sublist_swap (hnodup : l.Nodup) (hab : [a, b] <+ l) : ¬[b, a] <+ l := by
  intro hba
  obtain rfl : a = b := (cons.inj ((hnodup.perm_iff_eq_of_sublist hab hba).1 (.swap b a []))).1
  exact nodup_iff_sublist.1 hnodup a hab

theorem Orders.opposite (h : Orders next xs l r) :
    ([a, b] <+ l → Under next a b ∨ [b, a] <+ r) ∧ ([a, b] <+ r → Under next a b ∨ [b, a] <+ l) := by
  induction h with
  | nil => simp
  | @cons x xs l r l' r' hbelow hrest ihbelow ihrest =>
    have hunder : ∀ {y}, y ∈ l → Under next x y := fun hy => under_iff_exists_child.2 (hbelow.mem_iff.1 hy)
    simp only [cons_append, pair_sublist_cons_iff, pair_sublist_append_iff, mem_cons, mem_append,
      hbelow.perm.mem_iff, hrest.perm.mem_iff] at hunder ⊢
    constructor
    · rintro (⟨rfl, hb | hb⟩ | hab | ⟨ha, hb⟩ | hab)
      · exact .inl (hunder hb)
      · exact .inr (.inr (.inl ⟨hb, .inl rfl⟩))
      · exact (ihbelow.1 hab).imp_right fun hba => .inr (.inr (.inr hba))
      · exact .inr (.inr (.inl ⟨hb, .inr ha⟩))
      · exact (ihrest.1 hab).imp_right .inl
    · rintro (hab | ⟨ha, rfl | hb⟩ | ⟨rfl, hb⟩ | hab)
      · exact (ihrest.2 hab).imp_right fun hba => .inr (.inr (.inr hba))
      · exact .inr (.inl ⟨rfl, .inr ha⟩)
      · exact .inr (.inr (.inr (.inl ⟨hb, ha⟩)))
      · exact .inl (hunder hb)
      · exact (ihbelow.2 hab).imp_right fun hba => .inr (.inl hba)

/-- An element comes after what lies above it. -/
theorem Orders.not_before (h : Orders next xs l r) (hnodup : l.Nodup) (hba : Leads next b a)
    (hb : b ∈ l) : ¬[a, b] <+ l ∧ ¬[a, b] <+ r := by
  have hnodup' := h.perm.nodup_iff.1 hnodup
  rcases leads_iff_eq_or_under.1 hba with rfl | hunder
  · exact ⟨fun hpair => not_pair_sublist_swap hnodup hpair hpair,
      fun hpair => not_pair_sublist_swap hnodup' hpair hpair⟩
  · obtain ⟨hleft, hright⟩ := h.above_first hunder hb
    exact ⟨not_pair_sublist_swap hnodup hleft, not_pair_sublist_swap hnodup' hright⟩

/-- Elements of which none lies below the other come in opposite orders. -/
theorem Orders.before_right_iff (h : Orders next xs l r) (hnodup : l.Nodup) (ha : a ∈ l)
    (hb : b ∈ l) (hab : ¬Leads next a b) (hba : ¬Leads next b a) : [a, b] <+ r ↔ ¬[a, b] <+ l := by
  constructor
  · intro hright
    rcases h.opposite.2 hright with hunder | hswap
    · exact absurd hunder.to_reflTransGen hab
    · exact not_pair_sublist_swap hnodup hswap
  · intro hleft
    have hne : a ≠ b := fun hsame => hba (hsame ▸ .refl)
    have hswap := (pair_sublist_total ha hb hne).resolve_left hleft
    exact (h.opposite.1 hswap).resolve_left fun hunder => hba hunder.to_reflTransGen

/-! ### The orders of a forest -/

theorem exists_orders_of_forall (h : ∀ x ∈ xs, ∃ l r, Orders next (next x) l r) : ∃ l r, Orders next xs l r := by
  induction xs with
  | nil => exact ⟨[], [], .nil⟩
  | cons x xs ih =>
    obtain ⟨⟨l, r, hbelow⟩, h⟩ := forall_mem_cons.1 h
    obtain ⟨l', r', hrest⟩ := ih h
    exact ⟨_, _, .cons hbelow hrest⟩

theorem ForestOn.exists_orders (hforest : ForestOn next p) (hspace : ∀ x, p x → next x ⊆ space)
    {x : α} (hx : p x) : ∃ l r, Orders next (next x) l r :=
  exists_orders_of_forall fun c hc => hforest.exists_orders hspace (hforest.closed hx hc)
termination_by countUnder next space x
decreasing_by exact hforest.countUnder_lt hx hc (hspace x hx hc)

theorem Orders.nodup (h : Orders next xs l r) (hforest : ForestOn next p) (hxs : ∀ x ∈ xs, p x)
    (hapart : xs.Pairwise fun c d => ∀ z, Leads next c z → ¬Leads next d z) : l.Nodup := by
  induction h with
  | nil => exact nodup_nil
  | @cons x xs l r l' r' hbelow hrest ihbelow ihrest =>
    obtain ⟨hx, hxs⟩ := forall_mem_cons.1 hxs
    obtain ⟨hfirst, hapart⟩ := pairwise_cons.1 hapart
    have hchildren : (next x).Pairwise fun c d => ∀ z, Leads next c z → ¬Leads next d z :=
      (hforest.nodup hx).imp_of_mem fun hc hd hne z hcz hdz => hne (hforest.eq_of_leads_of_leads hx hc hd hcz hdz)
    have hunder : ∀ y ∈ l, Under next x y := fun y hy => under_iff_exists_child.2 (hbelow.mem_iff.1 hy)
    have hnotin : x ∉ l := fun hmem => hforest.acyclic hx (hunder x hmem)
    refine Nodup.append (nodup_cons.2 ⟨hnotin, ihbelow (fun c hc => hforest.closed hx hc) hchildren⟩)
      (ihrest hxs hapart) fun y hy hy' => ?_
    obtain ⟨d, hd, hdy⟩ := hrest.mem_iff.1 hy'
    refine hfirst d hd y (leads_iff_eq_or_under.2 ?_) hdy
    exact (mem_cons.1 hy).imp_right (hunder y)

theorem ForestOn.exists_orders_root {root : α} (htree : ForestOn next (Leads next root))
    (hspace : ∀ x, Leads next root x → next x ⊆ space) :
    ∃ l r, Orders next [root] l r ∧ l.Nodup ∧ ∀ x, x ∈ l ↔ Leads next root x := by
  obtain ⟨l, r, horders⟩ : ∃ l r, Orders next [root] l r := by
    refine exists_orders_of_forall fun x hx => ?_
    obtain rfl := mem_singleton.1 hx
    exact htree.exists_orders hspace .refl
  exact ⟨l, r, horders, horders.nodup htree (by simpa using .refl) (pairwise_singleton _ _),
    by simp [horders.mem_iff]⟩

end ParallelPatterns.Search

/-! ## Units -/

namespace ParallelPatterns

open List Search

/-! ### Pairs in a list -/

section

variable {α : Type} {a b u t : α} {l : List α}

theorem mem_takeWhile_not_iff {p : α → Bool} (hnodup : l.Nodup) (ht : t ∈ l)
    (hp : ∀ x ∈ l, p x ↔ x = t) : u ∈ l.takeWhile (fun x => !p x) ↔ [u, t] <+ l := by
  obtain ⟨before, behind, rfl⟩ := append_of_mem ht
  have hbefore : ∀ x ∈ before, !p x := by
    intro x hx
    have hne : x ≠ t := fun hsame => disjoint_of_nodup_append hnodup hx (hsame ▸ mem_cons_self)
    rwa [Bool.not_eq_true', ← Bool.not_eq_true, hp x (mem_append_left _ hx)]
  have htaken : (before ++ t :: behind).takeWhile (fun x => !p x) = before := by
    rw [takeWhile_append_of_pos hbefore, takeWhile_cons_of_neg (by simpa using (hp t ht).2 rfl), append_nil]
  rw [htaken]
  refine ⟨fun hu => pair_sublist_append_iff.2 (.inr (.inl ⟨hu, mem_cons_self⟩)), fun hpair => ?_⟩
  have hbehind : t ∉ before ∧ t ∉ behind :=
    ⟨fun h => disjoint_of_nodup_append hnodup h mem_cons_self, (nodup_cons.1 (nodup_append.1 hnodup).2.1).1⟩
  rcases pair_sublist_append_iff.1 hpair with hpair | ⟨hu, -⟩ | hpair
  · exact absurd (hpair.subset (by simp)) hbehind.1
  · exact hu
  · rcases pair_sublist_cons_iff.1 hpair with ⟨-, h⟩ | h
    · exact absurd h hbehind.2
    · exact absurd (h.subset (by simp)) hbehind.2

theorem takeWhile_append_of_any {p : α → Bool} {ys : List α} (h : l.any p) :
    (l ++ ys).takeWhile (fun x => !p x) = l.takeWhile fun x => !p x := by
  rw [takeWhile_append, if_neg]
  intro hlength
  have hwhole := l.takeWhile_prefix fun x => !p x
  have hall := takeWhile_eq_self_iff.1 (hwhole.eq_of_length hlength)
  obtain ⟨x, hx, hpx⟩ := any_eq_true.1 h
  simpa [hpx] using hall x hx

end

namespace Graph

variable {g : Graph} {f target u : Node} {order xs out visited : List NodeId}

/-! ### Walks -/

theorem besideGo_of_visits {ids : NodeId → List NodeId} {next : NodeId → List Node} (hg : g.WellFormed)
    (hnext : ∀ id, next id = g.nodesAt (ids id)) (h : Visits ids xs out) (hknown : ∀ id ∈ out, (g.node? id).isSome)
    (hnodup : (visited ++ out).Nodup) (fuel : Nat) (stack found : List Node) :
    g.besideGo target next (fuel + out.length) (g.nodesAt xs ++ stack) visited found =
      if (g.nodesAt out).any (·.alike target) then
        found ++ ((g.nodesAt out).takeWhile fun n => !n.alike target).filter (·.isUnit)
      else g.besideGo target next fuel stack (visited ++ out) (found ++ (g.nodesAt out).filter (·.isUnit)) := by
  induction h generalizing visited fuel stack found with
  | nil => simp [nodesAt]
  | @cons x xs below rest _ _ ihbelow ihrest =>
    obtain ⟨n, hn⟩ := Option.isSome_iff_exists.1 (hknown x (by simp))
    obtain rfl : n.id = x := hg.keyed x n hn
    have hcons : ∀ ids, g.nodesAt (n.id :: ids) = n :: g.nodesAt ids := fun ids => filterMap_cons_some hn
    have hturns : fuel + (n.id :: below ++ rest).length = fuel + rest.length + below.length + 1 := by
      rw [length_append, length_cons]
      omega
    have hsplit : visited ++ (n.id :: below ++ rest) = visited ++ [n.id] ++ below ++ rest := by simp
    have hnew : visited.contains n.id = false := by
      have := disjoint_of_nodup_append hnodup
      simpa using fun hmem => this hmem mem_cons_self
    rw [hsplit] at hnodup ⊢
    have hbelow := ihbelow (fun id hid => hknown id (by simp [hid])) ((sublist_append_left _ rest).nodup hnodup)
    have hrest := ihrest (fun id hid => hknown id (by simp [hid])) hnodup fuel stack
    rw [hturns, cons_append, hcons, hcons, show g.nodesAt (_ ++ _) = g.nodesAt _ ++ g.nodesAt _ from
      filterMap_append, cons_append, besideGo]
    cases halike : n.alike target with
    | true => simp [halike]
    | false =>
      have hfound : ∀ ns : List Node, (if n.isUnit then found ++ [n] else found) ++ ns.filter (·.isUnit) =
          found ++ (n :: ns).filter (·.isUnit) := by
        intro ns
        rw [filter_cons]
        split <;> simp
      simp only [hnew, Bool.false_eq_true, if_false, hnext, hbelow, any_cons, any_append, halike,
        Bool.false_or, takeWhile_cons, Bool.not_false, if_true]
      cases hmet : (g.nodesAt below).any (·.alike target) with
      | true => rw [if_pos rfl, Bool.true_or, if_pos rfl, takeWhile_append_of_any hmet, hfound]
      | false =>
        rw [if_neg Bool.false_ne_true, Bool.false_or, hrest, takeWhile_append_of_pos (by simpa using hmet)]
        simp only [append_assoc, ← filter_append, hfound, cons_append]

theorem children_eq_nodesAt (g : Graph) (id : NodeId) : g.children id = g.nodesAt (g.childIds id) :=
  targets_eq_nodesAt _

/-! ### Trees -/

/-- The unit lies below the function over child edges. -/
structure UnitOf (g : Graph) (f u : Node) : Prop where
  node : g.node? u.id = some u
  isUnit : u.isUnit
  below : Leads g.childIds f.id u.id

/-- A node divides the units of its function: those above it lie on both sides, it and those below
it on none, and of the others those that come before it, from left to right, on one side and the
rest on the other one. The order is the one in which a walk from left to right visits the nodes of
the function. -/
structure Divides (g : Graph) (f target : Node) (order : List NodeId) (left right : List Node) : Prop where
  visits : Visits g.childIds [f.id] order
  nodup_left : left.Nodup
  nodup_right : right.Nodup
  above : ∀ u, g.UnitOf f u → Under g.childIds u.id target.id → u ∈ left ∧ u ∈ right
  below : ∀ u, g.UnitOf f u → Leads g.childIds target.id u.id → u ∉ left ∧ u ∉ right
  left_iff : ∀ u, g.UnitOf f u → ¬Leads g.childIds u.id target.id → ¬Leads g.childIds target.id u.id →
    (u ∈ left ↔ [u.id, target.id] <+ order)
  right_iff : ∀ u, g.UnitOf f u → ¬Leads g.childIds u.id target.id → ¬Leads g.childIds target.id u.id →
    (u ∈ right ↔ ¬[u.id, target.id] <+ order)

section

variable (hg : g.WellFormed) (hknown : ∀ id ∈ order, (g.node? id).isSome)
include hg hknown

theorem pair_sublist_nodesAt_iff {v : Node} (hu : g.node? u.id = some u)
    (hv : g.node? v.id = some v) : [u, v] <+ g.nodesAt order ↔ [u.id, v.id] <+ order := by
  refine ⟨fun h => map_id_nodesAt hg hknown ▸ h.map fun n : Node => n.id, fun h => ?_⟩
  have hpair : [u.id, v.id].filterMap g.node? = [u, v] := by
    rw [filterMap_cons_some hu, filterMap_cons_some hv, filterMap_nil]
  exact hpair ▸ h.filterMap g.node?

theorem mem_filter_takeWhile_iff (hnumbers : g.NumbersDiffer) (hnodup : order.Nodup)
    (htarget : g.node? target.id = some target) (hmem : target.id ∈ order) :
    u ∈ ((g.nodesAt order).takeWhile fun n => !n.alike target).filter (·.isUnit) ↔
      g.node? u.id = some u ∧ u.isUnit ∧ [u.id, target.id] <+ order := by
  have hnodes : (g.nodesAt order).Nodup := .of_map (·.id) ((map_id_nodesAt hg hknown).symm ▸ hnodup)
  have htargetIn : target ∈ g.nodesAt order := (mem_nodesAt_iff hg).2 ⟨hmem, htarget⟩
  have hsame : ∀ n ∈ g.nodesAt order, n.alike target ↔ n = target := fun n hn =>
    ⟨hnumbers.eq_of_alike ((mem_nodesAt_iff hg).1 hn).2 htarget, fun h => h ▸ n.alike_refl⟩
  rw [mem_filter, mem_takeWhile_not_iff hnodes htargetIn hsame]
  constructor
  · rintro ⟨hbefore, hunit⟩
    have hu := ((mem_nodesAt_iff hg).1 (hbefore.subset mem_cons_self)).2
    exact ⟨hu, hunit, (pair_sublist_nodesAt_iff hg hknown hu htarget).1 hbefore⟩
  · rintro ⟨hu, hunit, hbefore⟩
    exact ⟨(pair_sublist_nodesAt_iff hg hknown hu htarget).2 hbefore, hunit⟩

end

theorem node?_of_parentFunction (hg : g.WellFormed) (htarget : g.node? target.id = some target)
    (hf : g.parentFunction target = .ok f) : g.node? f.id = some f := by
  unfold parentFunction at hf
  split at hf
  · cases hf
    exact htarget
  · split at hf
    · split at hf
      · cases hf
      · rename_i id _ _
        unfold node at hf
        split at hf
        · rename_i n hn
          cases hf
          rw [hg.keyed id f hn]
          exact hn
        · cases hf
    · cases hf

theorem length_le_edgeCount {root : NodeId} (hnodup : order.Nodup)
    (hleads : ∀ id ∈ order, Leads g.childIds root id) : order.length ≤ g.edgeCount + 1 := by
  have hsubset : order ⊆ root :: g.linkedEdges.map (·.target) := by
    intro id hid
    rcases Relation.ReflTransGen.cases_tail (hleads id hid) with rfl | ⟨p, -, hstep⟩
    · exact mem_cons_self
    · obtain ⟨e, he, -, rfl⟩ := mem_childIds_iff.1 hstep
      exact mem_cons_of_mem _ (mem_map.2 ⟨e, (mem_filter.1 he).1, rfl⟩)
  have hle := (subperm_of_subset hnodup hsubset).length_le
  rwa [length_cons, length_map, length_linkedEdges] at hle

theorem beside_of_visits (hg : g.WellFormed) (htarget : g.node? target.id = some target)
    (hf : g.parentFunction target = .ok f) (right : Bool)
    (hvisits : Visits (fun id => if right then (g.childIds id).reverse else g.childIds id) [f.id] order)
    (hleads : ∀ id, id ∈ order ↔ Leads g.childIds f.id id) (hnodup : order.Nodup)
    (hbelow : Leads g.childIds f.id target.id) (hknown : ∀ id ∈ order, (g.node? id).isSome) :
    g.beside target right true = .ok (((g.nodesAt order).takeWhile fun n => !n.alike target).filter
      (·.isUnit)) := by
  have hnode := node?_of_parentFunction hg htarget hf
  have hstack : [f] = g.nodesAt [f.id] ++ [] := by
    rw [append_nil, nodesAt, filterMap_cons_some hnode, filterMap_nil]
  have hnext : ∀ id, (if right then (g.children id).reverse else g.children id) =
      g.nodesAt (if right then (g.childIds id).reverse else g.childIds id) := by
    intro id
    cases right with
    | false => exact children_eq_nodesAt g id
    | true => exact (congrArg reverse (children_eq_nodesAt g id)).trans filterMap_reverse.symm
  have hlength := length_le_edgeCount hnodup fun id hid => (hleads id).1 hid
  have hturns : g.edgeCount + 2 = g.edgeCount + 2 - order.length + order.length := by omega
  have hmet : (g.nodesAt order).any (·.alike target) :=
    any_eq_true.2 ⟨target, (mem_nodesAt_iff hg).2 ⟨(hleads _).2 hbelow, htarget⟩, target.alike_refl⟩
  rw [beside, hf]
  show Except.ok (g.besideGo target (fun id => if right then (g.children id).reverse else g.children id)
    (g.edgeCount + 2) [f] [] []) = _
  rw [hturns, hstack, besideGo_of_visits hg hnext hvisits hknown (by simpa using hnodup), if_pos hmet, nil_append]

structure InTree (g : Graph) (f target : Node) : Prop where
  wellFormed : g.WellFormed
  numbers : g.NumbersDiffer
  node : g.node? target.id = some target
  function : g.parentFunction target = .ok f
  tree : ForestOn g.childIds (Leads g.childIds f.id)
  below : Leads g.childIds f.id target.id

namespace InTree

variable (h : g.InTree f target)
include h

theorem exists_orders : ∃ l r, Orders g.childIds [f.id] l r ∧ l.Nodup ∧ ∀ id, id ∈ l ↔ Leads g.childIds f.id id :=
  h.tree.exists_orders_root fun id _ => h.wellFormed.targets_subset _ id

theorem known {id : NodeId} (hid : Leads g.childIds f.id id) : (g.node? id).isSome := by
  have hnode := node?_of_parentFunction h.wellFormed h.node h.function
  exact mem_keys_iff.1 (hid.mem_of_closed (fun id _ => h.wellFormed.targets_subset _ id)
    (mem_keys_iff.2 (by rw [hnode]; rfl)))

theorem exists_beside_of_visits (right : Bool)
    (hvisits : Visits (fun id => if right then (g.childIds id).reverse else g.childIds id) [f.id] order)
    (hnodup : order.Nodup) (hmem : ∀ id, id ∈ order ↔ Leads g.childIds f.id id) :
    ∃ found, g.beside target right true = .ok found ∧ found.Nodup ∧
      ∀ u, u ∈ found ↔ g.node? u.id = some u ∧ u.isUnit ∧ [u.id, target.id] <+ order := by
  have hknown : ∀ id ∈ order, (g.node? id).isSome := fun id hid => h.known ((hmem id).1 hid)
  have hids : (g.nodesAt order).Nodup := .of_map (·.id) ((map_id_nodesAt h.wellFormed hknown).symm ▸ hnodup)
  exact ⟨_, beside_of_visits h.wellFormed h.node h.function right hvisits hmem hnodup h.below hknown,
    hids.sublist (filter_sublist.trans (takeWhile_sublist _)),
    fun u => mem_filter_takeWhile_iff h.wellFormed hknown h.numbers hnodup h.node ((hmem _).2 h.below)⟩

end InTree

/-- A node of a tree divides the units to its left and to its right. -/
theorem beside_divides (h : g.InTree f target) :
    ∃ order left right, g.beside target false true = .ok left ∧
      g.beside target true true = .ok right ∧ g.Divides f target order left right := by
  obtain ⟨l, r, horders, hnodup, hmem⟩ := h.exists_orders
  obtain ⟨left, hleft, hnodupLeft, hmemLeft⟩ := h.exists_beside_of_visits false horders.left hnodup hmem
  obtain ⟨right, hright, hnodupRight, hmemRight⟩ := h.exists_beside_of_visits true horders.right
    (horders.perm.nodup_iff.1 hnodup) fun id => horders.perm.mem_iff.symm.trans (hmem id)
  have hinLeft (u) (hu : g.UnitOf f u) : u ∈ left ↔ [u.id, target.id] <+ l := by
    simp [hmemLeft, hu.node, hu.isUnit]
  have hinRight (u) (hu : g.UnitOf f u) : u ∈ right ↔ [u.id, target.id] <+ r := by
    simp [hmemRight, hu.node, hu.isUnit]
  refine ⟨l, left, right, hleft, hright, horders.left, hnodupLeft, hnodupRight, fun u hu hunder => ?_,
    fun u hu hleads => ?_, fun u hu _ _ => hinLeft u hu, fun u hu habove hbelow => ?_⟩
  · rw [hinLeft u hu, hinRight u hu]
    exact horders.above_first hunder ((hmem _).2 hu.below)
  · rw [hinLeft u hu, hinRight u hu]
    exact horders.not_before hnodup hleads ((hmem _).2 h.below)
  · rw [hinRight u hu]
    exact horders.before_right_iff hnodup ((hmem _).2 hu.below) ((hmem _).2 h.below) habove hbelow

/-- A function with a unit, a loop with two units, and a last unit. -/
def unitsAroundLoop : Graph :=
  ofEdges [numbered "1:0" 0 (.function {}), numbered "1:2" 2 (.unit {}), numbered "1:3" 3 (.loop {}),
      numbered "1:4" 4 (.unit {}), numbered "1:5" 5 (.unit {}), numbered "1:1" 1 (.unit {})]
    [("1:0", "1:2", .child), ("1:0", "1:3", .child), ("1:3", "1:4", .child), ("1:3", "1:5", .child),
      ("1:0", "1:1", .child)]

/-- The first unit of the loop divides the other units. -/
theorem beside_divides_unitsAroundLoop :
    let f := numbered "1:0" 0 (.function {})
    let u := numbered "1:4" 4 (.unit {})
    unitsAroundLoop.InTree f u ∧ ∃ order left right, unitsAroundLoop.beside u false true = .ok left ∧
      unitsAroundLoop.beside u true true = .ok right ∧ unitsAroundLoop.Divides f u order left right := by
  intro f u
  have hforest : unitsAroundLoop.ChildForest :=
    .of_edges (by decide) (fun id => unitsAroundLoop.nodes.keys.idxOf id) (by decide)
  have h : unitsAroundLoop.InTree f u := {
    wellFormed := .of_entries (by decide) (by decide)
    numbers := by unfold NumbersDiffer; decide
    node := rfl
    function := rfl
    tree := hforest.tree trivial
    below := .tail (.single (by decide : "1:3" ∈ unitsAroundLoop.childIds "1:0")) (by decide) }
  exact ⟨h, beside_divides h⟩

end Graph

end ParallelPatterns
