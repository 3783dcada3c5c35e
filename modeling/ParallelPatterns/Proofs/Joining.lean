import Mathlib.Data.List.Range
import ParallelPatterns.Device.TransferPoint
import ParallelPatterns.Proofs.Table

/-!
# Joined transfers

Two transfers may differ in their regions and still say the same. Of such transfers none is kept:
`dropRepeated` keeps exactly those that no other transfer of the list repeats, so a repeated
transfer is left without one that stands for it. Then transfers at one position are joined into one,
which concerns what they concern.
-/

namespace ParallelPatterns

open List

/-! ### Saying the same is an equivalence -/

theorem sameMembers_iff {α : Type} [BEq α] [LawfulBEq α] {a b : List α} : sameMembers a b ↔ ∀ x, x ∈ a ↔ x ∈ b := by
  simp only [sameMembers, Bool.and_eq_true, all_eq_true, contains_iff_mem]
  constructor
  · rintro ⟨hab, hba⟩ x
    exact ⟨hab x, hba x⟩
  · intro h
    exact ⟨fun x => (h x).1, fun x => (h x).2⟩

abbrev Classing {α : Type} (repeats : α → α → Bool) : Prop := Equivalence fun a b => repeats a b

theorem DeviceUpdate.repeats_iff {a b : DeviceUpdate} :
    a.repeats b ↔
      a.source = b.source ∧ a.asyncSource = b.asyncSource ∧ a.sink = b.sink ∧
        (∀ n, n ∈ a.names ↔ n ∈ b.names) ∧ a.kind = b.kind ∧ a.lastWrites = b.lastWrites ∧
          a.asyncPossible = b.asyncPossible ∧ ∀ d, d ∈ a.dependences ↔ d ∈ b.dependences := by
  simp only [repeats, Bool.and_eq_true, beq_iff_eq, sameMembers_iff, and_assoc]

theorem DeviceUpdate.classing_repeats : Classing DeviceUpdate.repeats where
  refl _ := repeats_iff.2 (by simp)
  symm h := repeats_iff.2 (by simp [repeats_iff.1 h])
  trans h h' := repeats_iff.2 (by simp [repeats_iff.1 h, repeats_iff.1 h'])

theorem TransferPoint.repeats_iff {a b : TransferPoint} :
    a.repeats b ↔
      (∀ n, n ∈ a.names ↔ n ∈ b.names) ∧ a.source = b.source ∧ a.sink = b.sink ∧ a.kind = b.kind ∧
        a.line = b.line ∧ ∀ d, d ∈ a.dependences ↔ d ∈ b.dependences := by
  simp only [repeats, Bool.and_eq_true, beq_iff_eq, sameMembers_iff, and_assoc]

theorem TransferPoint.classing_repeats : Classing TransferPoint.repeats where
  refl _ := repeats_iff.2 (by simp)
  symm h := repeats_iff.2 (by simp [repeats_iff.1 h])
  trans h h' := repeats_iff.2 (by simp [repeats_iff.1 h, repeats_iff.1 h'])

/-! ### What is kept -/

section DropRepeated

variable {α : Type} {repeats : α → α → Bool} {xs : List α}

/-- No other element of the list repeats the one at a place. -/
def Alone (repeats : α → α → Bool) (xs : List α) (i : Nat) (x : α) : Prop :=
  ∀ j y, xs[j]? = some y → j ≠ i → repeats x y = false

variable {x : α} {i : Nat}

theorem mem_kept_iff :
    (x, i) ∈ xs.zipIdx.filter (fun (x, i) => !xs.zipIdx.any fun (y, j) => i != j && repeats x y) ↔
      xs[i]? = some x ∧ Alone repeats xs i x := by
  simp only [mem_filter, mem_zipIdx_iff_getElem?, Bool.not_eq_true', any_eq_false, Prod.forall,
    Bool.and_eq_true, bne_iff_ne, not_and, Bool.not_eq_true]
  refine and_congr_right fun _ => ?_
  exact ⟨fun h j y hy hj => h y j hy hj.symm, fun h y j hy hj => h j y hy hj.symm⟩

theorem mem_dropRepeated_iff : x ∈ dropRepeated repeats xs ↔ ∃ i, xs[i]? = some x ∧ Alone repeats xs i x := by
  unfold dropRepeated
  rw [mem_map]
  constructor
  · rintro ⟨⟨y, i⟩, hy, rfl⟩
    exact ⟨i, mem_kept_iff.1 hy⟩
  · rintro ⟨i, hi⟩
    exact ⟨(x, i), mem_kept_iff.2 hi, rfl⟩

theorem dropRepeated_sublist (repeats : α → α → Bool) (xs : List α) : (dropRepeated repeats xs).Sublist xs := by
  have h : (dropRepeated repeats xs).Sublist (xs.zipIdx.map (·.1)) := filter_sublist.map _
  rwa [zipIdx_map_fst] at h

theorem pairwise_dropRepeated (repeats : α → α → Bool) (xs : List α) :
    (dropRepeated repeats xs).Pairwise fun a b => repeats a b = false := by
  unfold dropRepeated
  rw [pairwise_map]
  have hplaces : xs.zipIdx.Pairwise fun a b => a.2 ≠ b.2 := by
    have hnodup : (xs.zipIdx.map (·.2)).Nodup := by
      rw [zipIdx_map_snd]
      exact nodup_range'
    exact pairwise_map.1 hnodup
  refine (hplaces.filter _).imp_of_mem fun {a b} ha hb hne => ?_
  obtain ⟨-, halone⟩ := mem_kept_iff.1 ha
  obtain ⟨hb, -⟩ := mem_kept_iff.1 hb
  exact halone b.2 b.1 hb hne.symm

theorem represented_iff (hrepeats : Classing repeats) (hx : xs[i]? = some x) :
    (∃ y ∈ dropRepeated repeats xs, repeats x y) ↔ Alone repeats xs i x := by
  constructor
  · rintro ⟨y, hy, hxy⟩
    obtain ⟨k, hk, halone⟩ := mem_dropRepeated_iff.1 hy
    have hyx : repeats y x := hrepeats.symm hxy
    -- the kept element cannot stand elsewhere, since there the element itself would repeat it
    obtain rfl : i = k := by
      by_contra hne
      exact Bool.false_ne_true ((halone i x hx hne).symm.trans hyx)
    obtain rfl : x = y := Option.some.inj (hx.symm.trans hk)
    exact halone
  · intro halone
    exact ⟨x, mem_dropRepeated_iff.2 ⟨i, hx, halone⟩, hrepeats.refl x⟩

theorem alone_of_pairwise (hrepeats : Classing repeats) (h : xs.Pairwise fun a b => repeats a b = false)
    (hx : xs[i]? = some x) : Alone repeats xs i x := by
  intro j y hy hne
  obtain ⟨hi, rfl⟩ := List.getElem?_eq_some_iff.1 hx
  obtain ⟨hj, rfl⟩ := List.getElem?_eq_some_iff.1 hy
  rw [pairwise_iff_getElem] at h
  rcases Nat.lt_or_gt_of_ne hne with hlt | hgt
  · have hback : repeats xs[j] xs[i] = false := h j i hj hi hlt
    rw [← Bool.not_eq_true] at hback ⊢
    exact fun hrepeat => hback (hrepeats.symm hrepeat)
  · exact h i j hi hj hgt

theorem dropRepeated_eq_self_iff (hrepeats : Classing repeats) :
    dropRepeated repeats xs = xs ↔ xs.Pairwise fun a b => repeats a b = false := by
  constructor
  · intro h
    rw [← h]
    exact pairwise_dropRepeated repeats xs
  · intro h
    refine (dropRepeated_sublist repeats xs).eq_of_length ?_
    have hkept : ∀ e ∈ xs.zipIdx, (!xs.zipIdx.any fun (y, j) => e.2 != j && repeats e.1 y) := by
      intro e he
      have hplace : xs[e.2]? = some e.1 := mem_zipIdx_iff_getElem?.1 he
      exact (mem_filter.1 (mem_kept_iff.2 ⟨hplace, alone_of_pairwise hrepeats h hplace⟩)).2
    unfold dropRepeated
    rw [filter_eq_self.2 hkept, length_map, length_zipIdx]

/-- One list stands for another: it is a part of it, no two of its elements repeat each other, and
every element of the other list is repeated by one of its elements. -/
structure Represents (repeats : α → α → Bool) (xs ys : List α) : Prop where
  sublist : ys.Sublist xs
  apart : ys.Pairwise fun a b => repeats a b = false
  covers : ∀ x ∈ xs, ∃ y ∈ ys, repeats x y

theorem represents_dropRepeated_iff (hrepeats : Classing repeats) :
    Represents repeats xs (dropRepeated repeats xs) ↔ xs.Pairwise fun a b => repeats a b = false := by
  constructor
  · intro h
    rw [pairwise_iff_getElem]
    intro i j hi hj hlt
    have halone : Alone repeats xs i xs[i] :=
      (represented_iff hrepeats (getElem?_eq_getElem hi)).1 (h.covers xs[i] (getElem_mem hi))
    exact halone j xs[j] (getElem?_eq_getElem hj) (by omega)
  · intro h
    refine ⟨dropRepeated_sublist repeats xs, pairwise_dropRepeated repeats xs, fun x hx => ?_⟩
    rw [(dropRepeated_eq_self_iff hrepeats).2 h]
    exact ⟨x, hx, hrepeats.refl x⟩

/-- Of a list, what no other element repeats is left: a part of the list without repetitions, in
which an element is represented if and only if it is left itself. All elements are represented if
and only if no element repeats another one, and then the list stays as it is. -/
structure LeavesUnrepeated (repeats : α → α → Bool) (xs : List α) : Prop where
  sublist : (dropRepeated repeats xs).Sublist xs
  apart : (dropRepeated repeats xs).Pairwise fun a b => repeats a b = false
  represented : ∀ i x, xs[i]? = some x →
    ((∃ y ∈ dropRepeated repeats xs, repeats x y) ↔ Alone repeats xs i x)
  represents : Represents repeats xs (dropRepeated repeats xs) ↔ xs.Pairwise fun a b => repeats a b = false
  unchanged : dropRepeated repeats xs = xs ↔ xs.Pairwise fun a b => repeats a b = false

theorem leavesUnrepeated (hrepeats : Classing repeats) (xs : List α) : LeavesUnrepeated repeats xs where
  sublist := dropRepeated_sublist repeats xs
  apart := pairwise_dropRepeated repeats xs
  represented _ _ hx := represented_iff hrepeats hx
  represents := represents_dropRepeated_iff hrepeats
  unchanged := dropRepeated_eq_self_iff hrepeats

end DropRepeated

/-- Of the updates, entries and exits of a scope, exactly those are left that no other one
repeats. -/
theorem dropRepeated_leavesUnrepeated (us : List DeviceUpdate) (ps : List TransferPoint) :
    LeavesUnrepeated DeviceUpdate.repeats us ∧ LeavesUnrepeated TransferPoint.repeats ps :=
  ⟨leavesUnrepeated DeviceUpdate.classing_repeats us, leavesUnrepeated TransferPoint.classing_repeats ps⟩

/-- A variable brought to the device twice, once with the region behind it and once with another
region, too. -/
def sameTransfers : List DeviceUpdate :=
  let transfer (regions : List Region) : DeviceUpdate :=
    { source := "1:1", sink := "1:2", regions, names := ["x"], kind := .toDevice, lastWrites := [("a", "1:1")] }
  [transfer ["a"], transfer ["a", "b"]]

/-- The two transfers are different elements of a set, and dropping repeated ones leaves neither. -/
theorem not_represents_sameTransfers :
    sameTransfers.foldl (addElement DeviceUpdate.repeats (·.regions)) [] = sameTransfers ∧
      dropRepeated DeviceUpdate.repeats sameTransfers = [] ∧
      ¬ Represents DeviceUpdate.repeats sameTransfers (dropRepeated DeviceUpdate.repeats sameTransfers) := by
  have hnone : dropRepeated DeviceUpdate.repeats sameTransfers = [] := by decide
  refine ⟨by decide, hnone, fun h => ?_⟩
  obtain ⟨y, hy, -⟩ := h.covers _ (mem_cons_self ..)
  rw [hnone] at hy
  exact absurd hy not_mem_nil

/-! ## Joining -/

/-- What a transfer concerns: a variable, a region, or a dependence. -/
inductive Concern where
  | name (n : String)
  | region (r : Region)
  | dependence (d : DeviceDependence)

section

variable {α κ : Type} [BEq κ] {position : α → κ} {concerns : α → Concern → Prop} {join : α → α → α}

/-- The joined elements have each position of an element once, concern what the elements there
concern, and no two of them say the same. -/
structure JoinsAll (position : α → κ) (concerns : α → Concern → Prop) (repeats : α → α → Bool)
    (xs ys : List α) : Prop where
  onePerPosition : ys.map position = distinct (xs.map position)
  concerns : ∀ y ∈ ys, ∀ c, concerns y c ↔ ∃ x ∈ xs, position x = position y ∧ concerns x c
  apart : ys.Pairwise fun a b => ¬repeats a b

def joinTurn (position : α → κ) (join : α → α → α) (t : Table κ α) (x : α) : Table κ α :=
  t.insert (position x) ((t.get? (position x)).elim x (join · x))

theorem joinElements_eq (position : α → κ) (join : α → α → α) (xs : List α) :
    joinElements position join xs = (xs.foldl (joinTurn position join) ∅).values := by
  refine congrArg Table.values (congrFun₂ (congrArg foldl (funext₂ fun t x => ?_)) ∅ xs)
  cases h : t.get? (position x) <;> simp [joinTurn, h]

variable [LawfulBEq κ]

theorem keys_foldl_joinTurn (xs : List α) (t : Table κ α) :
    (xs.foldl (joinTurn position join) t).keys = addAll t.keys (xs.map position) := by
  induction xs generalizing t with
  | nil => rfl
  | cons x xs ih =>
    rw [foldl_cons, ih, joinTurn, Table.keys_insert]
    rfl

variable (hposition : ∀ a b, position (join a b) = position a)
  (hconcerns : ∀ a b c, concerns (join a b) c ↔ concerns a c ∨ concerns b c)
include hposition hconcerns

/-- What a position holds behind the turns concerns what it held before, and what the elements there
concern. -/
theorem get?_foldl_joinTurn {xs : List α} {t : Table κ α} {k : κ} {y : α}
    (ht : ∀ z, t.get? k = some z → position z = k) (hy : (xs.foldl (joinTurn position join) t).get? k = some y) :
    position y = k ∧ ∀ c, concerns y c ↔
      (∃ z, t.get? k = some z ∧ concerns z c) ∨ ∃ x ∈ xs, position x = k ∧ concerns x c := by
  induction xs generalizing t with
  | nil => simp_all
  | cons x xs ih =>
    have hget := Table.get?_insert t (position x) k ((t.get? (position x)).elim x (join · x))
    by_cases hk : position x = k
    · subst hk
      have hheld : position ((t.get? (position x)).elim x (join · x)) = position x := by
        cases hfirst : t.get? (position x) with
        | none => rfl
        | some first => exact (hposition first x).trans (ht first hfirst)
      obtain ⟨hy, hiff⟩ := ih (t := joinTurn position join t x) (by simpa [joinTurn] using hheld) hy
      refine ⟨hy, fun c => ?_⟩
      rw [hiff, joinTurn]
      cases t.get? (position x) <;> simp [hconcerns, or_assoc]
    · rw [beq_false_of_ne hk] at hget
      have hrest := ih (by rwa [joinTurn, hget]) hy
      rw [joinTurn] at hrest
      simpa [hk] using hrest

theorem joinsAll_joinElements {repeats : α → α → Bool} (hrepeats : ∀ a b, repeats a b → position a = position b)
    (xs : List α) : JoinsAll position concerns repeats xs (joinElements position join xs) := by
  have hkeys : (xs.foldl (joinTurn position join) ∅).keys = distinct (xs.map position) := keys_foldl_joinTurn xs ∅
  have hget := fun k y => @get?_foldl_joinTurn _ _ _ _ _ _ _ hposition hconcerns xs ∅ k y (by simp)
  rw [joinElements_eq]
  generalize xs.foldl (joinTurn position join) ∅ = t at hkeys hget
  have hnodup : t.keys.Nodup := hkeys ▸ nodup_distinct _
  have hjoined := fun (e : κ × α) (he : e ∈ t.entries) => hget e.1 e.2 (Table.get?_of_mem hnodup he)
  have hpositions : t.values.map position = t.keys := by
    rw [Table.values, map_map]
    exact map_congr_left fun e he => (hjoined e he).1
  refine ⟨hpositions.trans hkeys, fun y hy c => ?_, ?_⟩
  · obtain ⟨e, he, rfl⟩ := mem_map.1 hy
    obtain ⟨hposition, hconcerns⟩ := hjoined e he
    simpa [hposition] using hconcerns c
  · have hapart : (t.values.map position).Nodup := hpositions ▸ hnodup
    exact (pairwise_map.1 hapart).imp fun hne h => hne (hrepeats _ _ h)

end

def TransferPoint.Concerns (p : TransferPoint) : Concern → Prop
  | .name n => n ∈ p.names
  | .region r => r ∈ p.regions
  | .dependence d => d ∈ p.dependences

theorem TransferPoint.position_eq_of_repeats {a b : TransferPoint} (h : a.repeats b) : a.position = b.position := by
  obtain ⟨-, hsource, hsink, hkind, -⟩ := repeats_iff.1 h
  rw [position, position, hsource, hsink, hkind]

def DeviceUpdate.Concerns (u : DeviceUpdate) : Concern → Prop
  | .name n => n ∈ u.names
  | .region r => r ∈ u.regions
  | .dependence d => d ∈ u.dependences

theorem DeviceUpdate.position_eq_of_repeats {a b : DeviceUpdate} (h : a.repeats b) : a.position = b.position := by
  obtain ⟨hsource, hasync, hsink, -, hkind, -, hpossible, -⟩ := repeats_iff.1 h
  rw [position, position, hsource, hasync, hsink, hkind, hpossible]

/-- Joining loses nothing, neither of the entries and exits nor of the updates. -/
theorem joinElements_joinsAll (ps : List TransferPoint) (us : List DeviceUpdate) :
    JoinsAll TransferPoint.position TransferPoint.Concerns TransferPoint.repeats ps
        (joinElements TransferPoint.position TransferPoint.join ps) ∧
      JoinsAll DeviceUpdate.position DeviceUpdate.Concerns DeviceUpdate.repeats us
        (joinElements DeviceUpdate.position DeviceUpdate.join us) := by
  constructor
  · apply joinsAll_joinElements
    · exact fun _ _ => rfl
    · rintro a b (_ | _ | _) <;> exact mem_addAll
    · exact fun _ _ => TransferPoint.position_eq_of_repeats
  · apply joinsAll_joinElements
    · exact fun _ _ => rfl
    · rintro a b (_ | _ | _) <;> exact mem_addAll
    · exact fun _ _ => DeviceUpdate.position_eq_of_repeats

end ParallelPatterns
