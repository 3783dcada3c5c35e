import ParallelPatterns.Proofs.Computation

/-!
# First writes and the order of dependences

Whether a region is written before it is read is decided by the last dependence on a write inside of
the tree, so the answer may hang on the order in which the dependences come. It does exactly if the
values that are read in the tree are partly overwritten and partly not, or if a dependence without a
name may be met too early. In all other cases the answer is a function of the dependences alone.
-/

namespace ParallelPatterns.Access

open List

variable {name : Option String} {regions : List Region} {raw war reverseRaw reverseWar : List Edge}
  {tree : List Node}

/-- Is the value of a dependence overwritten, as far as the writes have names? -/
def isOverwritten (regions : List Region) (war : List Edge) (e : Edge) : Bool :=
  war.any fun w => isNamed w && overwrites regions e w

/-! ## One dependence -/

theorem overwritten_append {war : List Edge} (hwar : war.all isNamed) (e : Edge)
    (rest : List Edge) : overwritten regions e (war ++ rest) =
      if isOverwritten regions war e then .ok true else overwritten regions e rest := by
  induction war with
  | nil => rfl
  | cons w ws ih =>
    rw [all_cons, Bool.and_eq_true] at hwar
    rw [cons_append, overwritten, ih hwar.2]
    by_cases hw : overwrites regions e w <;> simp [isOverwritten, hwar.1, hw]

theorem overwritten_of_named (hwar : war.all isNamed) (e : Edge) :
    overwritten regions e war = .ok (isOverwritten regions war e) := by
  rw [← append_nil war, overwritten_append hwar, append_nil]
  cases isOverwritten regions war e <;> rfl

/-- The test gives whether the value is overwritten, unless it meets a write without a name. -/
theorem overwritten_cases (regions : List Region) (war : List Edge) (e : Edge) :
    overwritten regions e war = .error .requirement ∨
      overwritten regions e war = .ok (isOverwritten regions war e) := by
  induction war with
  | nil => exact .inr rfl
  | cons w ws ih =>
    rw [overwritten]
    cases hw : isNamed w with
    | false => exact .inl rfl
    | true =>
      by_cases hover : overwrites regions e w
      · simp [isOverwritten, hw, hover]
      · simpa [isOverwritten, hover] using ih

variable {e : Edge}

theorem overwritten_of_unnamed (hwar : war.all isNamed = false) (he : isOverwritten regions war e = false) :
    overwritten regions e war = .error .requirement := by
  induction war with
  | nil => cases hwar
  | cons w ws ih =>
    rw [overwritten]
    cases hw : isNamed w with
    | false => rfl
    | true =>
      rw [isOverwritten, any_cons, hw, Bool.true_and, Bool.or_eq_false_iff] at he
      rw [all_cons, hw] at hwar
      rw [if_pos rfl, if_neg (by simp [he.1])]
      exact ih hwar he.2

/-! ## All dependences -/

theorem writtenFirst_eq (hname : name ≠ none) :
    writtenFirst name regions raw war reverseRaw reverseWar tree = (do
      let found ← raw.foldlM (readTurn regions war tree) false
      return found || !readIn regions raw war reverseRaw reverseWar tree) := by
  obtain ⟨s, rfl⟩ := Option.ne_none_iff_exists'.1 hname
  rfl

theorem readTurn_cases (regions : List Region) (war : List Edge) (tree : List Node) (found : Bool) (e : Edge) :
    readTurn regions war tree found e = .error .requirement ∨ ∃ b, readTurn regions war tree found e = .ok b := by
  unfold readTurn
  split
  · split
    · rcases overwritten_cases regions war e with h | h
      · exact .inl (by rw [h]; rfl)
      · exact .inr ⟨_, by rw [h]; rfl⟩
    · exact .inr ⟨found, rfl⟩
  · exact .inl rfl

theorem foldlM_readTurn (hraw : raw.all isNamed)
    (hreads : ∀ e ∈ raw, readsWithin regions tree e →
      overwritten regions e war = .ok (isOverwritten regions war e)) (found : Bool) :
    raw.foldlM (readTurn regions war tree) found =
      .ok (((raw.filter (readsWithin regions tree)).getLast?.map fun e =>
        !isOverwritten regions war e).getD found) := by
  induction raw generalizing found with
  | nil => rfl
  | cons e es ih =>
    rw [all_cons, Bool.and_eq_true] at hraw
    have hrest := ih hraw.2 fun e' he' => hreads e' (mem_cons_of_mem e he')
    rw [foldlM_cons, readTurn, if_pos hraw.1]
    by_cases he : readsWithin regions tree e
    · rw [if_pos he, hreads e mem_cons_self he, filter_cons_of_pos he, getLast?_cons]
      show es.foldlM (readTurn regions war tree) _ = _
      rw [hrest]
      cases (es.filter (readsWithin regions tree)).getLast? <;> rfl
    · rw [if_neg he, filter_cons_of_neg he]
      exact hrest found

/-! ## The answer without an order -/

/-- The answer hangs on the order of the dependences. Some value that is read within the tree is
overwritten. If all overwriting dependences have names, some other value is not; else the test fails
if it first meets one without. -/
structure HangsOnOrder (name : Option String) (regions : List Region) (raw war : List Edge)
    (tree : List Node) : Prop where
  name_ne_none : name ≠ none
  raw_named : raw.all isNamed
  overwritten : ∃ e ∈ raw, readsWithin regions tree e ∧ isOverwritten regions war e
  kept_iff_named : (∃ e ∈ raw, readsWithin regions tree e ∧ isOverwritten regions war e = false) ↔
    war.all isNamed

/-- The answer as far as it does not hang on the order: some value that is read within the tree is
not overwritten, or nothing is read. -/
def settledAnswer (name : Option String) (regions : List Region)
    (raw war reverseRaw reverseWar : List Edge) (tree : List Node) : Result Bool :=
  if name.isNone then .ok false
  else if !raw.all isNamed || (!war.all isNamed && raw.any (readsWithin regions tree)) then .error .requirement
  else .ok ((raw.any fun e => readsWithin regions tree e && !isOverwritten regions war e) ||
    !readIn regions raw war reverseRaw reverseWar tree)

theorem readIn_of_readsWithin (he : e ∈ raw) (hreads : readsWithin regions tree e) :
    readIn regions raw war reverseRaw reverseWar tree := by
  rw [readsWithin, Bool.and_eq_true] at hreads
  have hraw : raw.any (concerns regions) := any_eq_true.2 ⟨e, he, hreads.1⟩
  simp [readIn, hraw]

section

variable (hname : name ≠ none)
include hname

theorem writtenFirst_eq_error
    (hfails : ∃ e ∈ raw, ∀ found, readTurn regions war tree found e = .error .requirement) :
    writtenFirst name regions raw war reverseRaw reverseWar tree = .error .requirement := by
  rw [writtenFirst_eq hname, foldlM_eq_error (fun found e _ => readTurn_cases regions war tree found e) hfails]
  rfl

variable (hraw : raw.all isNamed)
include hraw

theorem writtenFirst_eq_last
    (hreads : ∀ e ∈ raw, readsWithin regions tree e →
      overwritten regions e war = .ok (isOverwritten regions war e)) {last : Edge}
    (hlast : (raw.filter (readsWithin regions tree)).getLast? = some last) :
    writtenFirst name regions raw war reverseRaw reverseWar tree = .ok (!isOverwritten regions war last) := by
  obtain ⟨hmem, hwithin⟩ := mem_filter.1 (mem_of_getLast? hlast)
  rw [writtenFirst_eq hname, foldlM_readTurn hraw hreads, hlast, readIn_of_readsWithin hmem hwithin]
  exact congrArg Except.ok (Bool.or_false _)

theorem writtenFirst_of_unread (hnone : ∀ e ∈ raw, readsWithin regions tree e = false) :
    writtenFirst name regions raw war reverseRaw reverseWar tree =
      .ok (!readIn regions raw war reverseRaw reverseWar tree) := by
  have hfilter : raw.filter (readsWithin regions tree) = [] := filter_eq_nil_iff.2 fun e he => by simp [hnone e he]
  rw [writtenFirst_eq hname, foldlM_readTurn hraw fun e he hreads => absurd hreads (by simp [hnone e he]), hfilter]
  rfl

theorem writtenFirst_of_alike (hwar : war.all isNamed) (hreads : ∃ e ∈ raw, readsWithin regions tree e)
    (halike : ∀ e ∈ raw, ∀ e' ∈ raw, readsWithin regions tree e → readsWithin regions tree e' →
      isOverwritten regions war e → isOverwritten regions war e') :
    writtenFirst name regions raw war reverseRaw reverseWar tree =
      .ok (raw.any fun e => readsWithin regions tree e && !isOverwritten regions war e) := by
  obtain ⟨e, he, hwithin⟩ := hreads
  obtain ⟨last, hlast⟩ : ∃ last, (raw.filter (readsWithin regions tree)).getLast? = some last :=
    Option.isSome_iff_exists.1 (getLast?_isSome.2 (ne_nil_of_mem (mem_filter.2 ⟨he, hwithin⟩)))
  obtain ⟨hmem, hlastWithin⟩ := mem_filter.1 (mem_of_getLast? hlast)
  rw [writtenFirst_eq_last hname hraw (fun e _ _ => overwritten_of_named hwar e) hlast]
  refine congrArg Except.ok (Eq.symm ?_)
  cases hover : isOverwritten regions war last with
  | false => exact any_eq_true.2 ⟨last, hmem, by simp [hlastWithin, hover]⟩
  | true =>
    refine any_eq_false.2 fun e' he' hkept => ?_
    rw [Bool.and_eq_true, Bool.not_eq_true'] at hkept
    cases (halike last hmem e' he' hlastWithin hkept.1 hover).symm.trans hkept.2

theorem writtenFirst_of_kept (hwar : war.all isNamed = false)
    (hkept : ∃ e ∈ raw, readsWithin regions tree e ∧ isOverwritten regions war e = false) :
    writtenFirst name regions raw war reverseRaw reverseWar tree = .error .requirement := by
  obtain ⟨e, he, hwithin, hover⟩ := hkept
  refine writtenFirst_eq_error hname ⟨e, he, fun found => ?_⟩
  rw [readTurn, if_pos (all_eq_true.1 hraw e he), if_pos hwithin, overwritten_of_unnamed hwar hover]
  rfl

end

theorem writtenFirst_eq_settledAnswer (h : ¬ HangsOnOrder name regions raw war tree) :
    writtenFirst name regions raw war reverseRaw reverseWar tree =
      settledAnswer name regions raw war reverseRaw reverseWar tree := by
  by_cases hname : name = none
  · rw [hname]
    rfl
  have hsome : ¬ name.isNone := by simpa using hname
  rw [settledAnswer, if_neg hsome]
  cases hraw : raw.all isNamed with
  | false =>
    obtain ⟨e, he, hunnamed⟩ := all_eq_false.1 hraw
    exact writtenFirst_eq_error hname ⟨e, he, fun _ => if_neg hunnamed⟩
  | true =>
    by_cases hreads : ∃ e ∈ raw, readsWithin regions tree e
    · rw [any_eq_true.2 hreads]
      obtain ⟨e, he, hwithin⟩ := hreads
      cases hwar : war.all isNamed with
      | false =>
        refine writtenFirst_of_kept hname hraw hwar (by_contra fun hnone => ?_)
        cases hover : isOverwritten regions war e with
        | false => exact hnone ⟨e, he, hwithin, hover⟩
        | true => exact h ⟨hname, hraw, ⟨e, he, hwithin, hover⟩, iff_of_false hnone (by simp [hwar])⟩
      | true =>
        -- an overwritten value and a kept one would let the answer hang on which one is the last
        rw [writtenFirst_of_alike hname hraw hwar ⟨e, he, hwithin⟩ fun a ha b hb ha' hb' hover =>
          by_contra fun hkept =>
            h ⟨hname, hraw, ⟨a, ha, ha', hover⟩, iff_of_true ⟨b, hb, hb', Bool.eq_false_iff.2 hkept⟩ hwar⟩,
          readIn_of_readsWithin he hwithin, Bool.not_true, Bool.or_false]
        rfl
    · have hnone : ∀ e ∈ raw, readsWithin regions tree e = false := fun e he =>
        Bool.eq_false_iff.2 fun hwithin => hreads ⟨e, he, hwithin⟩
      have hany : raw.any (readsWithin regions tree) = false := any_eq_false.2 fun e he => by simp [hnone e he]
      have hkept : (raw.any fun e => readsWithin regions tree e && !isOverwritten regions war e) = false :=
        any_eq_false.2 fun e he => by simp [hnone e he]
      rw [writtenFirst_of_unread hname hraw hnone, hany, hkept, Bool.and_false]
      rfl

/-! ## Other orders -/

variable {raw' war' reverseRaw' reverseWar' : List Edge}

theorem isOverwritten_perm (hwar : war' ~ war) (e : Edge) :
    isOverwritten regions war' e = isOverwritten regions war e := hwar.any_eq

theorem readIn_perm (hraw : raw' ~ raw) (hwar : war' ~ war) (hreverseRaw : reverseRaw' ~ reverseRaw)
    (hreverseWar : reverseWar' ~ reverseWar) :
    readIn regions raw' war' reverseRaw' reverseWar' tree = readIn regions raw war reverseRaw reverseWar tree := by
  rw [readIn, readIn, hraw.any_eq, hwar.any_eq, hreverseRaw.any_eq, hreverseWar.any_eq]

theorem HangsOnOrder.perm (h : HangsOnOrder name regions raw war tree) (hraw : raw' ~ raw)
    (hwar : war' ~ war) : HangsOnOrder name regions raw' war' tree where
  name_ne_none := h.name_ne_none
  raw_named := hraw.all_eq.trans h.raw_named
  overwritten := by simpa only [hraw.mem_iff, isOverwritten_perm hwar] using h.overwritten
  kept_iff_named := by simpa only [hraw.mem_iff, isOverwritten_perm hwar, hwar.all_eq] using h.kept_iff_named

theorem exists_perm_getLast? {α : Type} {p : α → Bool} {xs : List α} {x : α} (hx : x ∈ xs)
    (hp : p x) : ∃ ys, ys ~ xs ∧ (ys.filter p).getLast? = some x := by
  obtain ⟨s, t, rfl⟩ := append_of_mem hx
  refine ⟨s ++ t ++ [x], (perm_append_singleton x (s ++ t)).trans perm_middle.symm, ?_⟩
  rw [filter_append, filter_cons_of_pos hp, filter_nil, getLast?_concat]

/-- The writes with names may come first; then all values can be looked at that are overwritten, and
all others if no write lacks a name. -/
theorem overwritten_namedFirst (he : isOverwritten regions war e ∨ war.all isNamed) :
    overwritten regions e (war.filter isNamed ++ war.filter fun w => !isNamed w) =
      .ok (isOverwritten regions war e) := by
  have hfirst : isOverwritten regions (war.filter isNamed) e = isOverwritten regions war e := by
    rw [isOverwritten, any_filter]
    congr 1
    funext w
    cases isNamed w <;> rfl
  rw [overwritten_append (all_filter ▸ all_eq_true.2 fun w _ => by cases isNamed w <;> rfl), hfirst]
  rcases he with he | he
  · rw [if_pos he, he]
  · have hnone : (war.filter fun w => !isNamed w) = [] :=
      filter_eq_nil_iff.2 fun w hw => by simp [all_eq_true.1 he w hw]
    rw [hnone]
    cases isOverwritten regions war e <;> rfl

theorem HangsOnOrder.exists_orders (h : HangsOnOrder name regions raw war tree)
    (reverseRaw reverseWar : List Edge) : (∃ raw' war', raw' ~ raw ∧ war' ~ war ∧
      writtenFirst name regions raw' war' reverseRaw reverseWar tree = .ok false) ∧
    ∃ raw' war', raw' ~ raw ∧ war' ~ war ∧
      (writtenFirst name regions raw' war' reverseRaw reverseWar tree = .ok true ∨
        writtenFirst name regions raw' war' reverseRaw reverseWar tree = .error .requirement) := by
  obtain ⟨hname, hraw, ⟨e, he, hwithin, hover⟩, hkept⟩ := h
  constructor
  · obtain ⟨raw', hperm, hlast⟩ := exists_perm_getLast? he hwithin
    have hwar : (war.filter isNamed ++ war.filter fun w => !isNamed w) ~ war := filter_append_perm isNamed war
    refine ⟨raw', _, hperm, hwar, ?_⟩
    rw [writtenFirst_eq_last hname (hperm.all_eq.trans hraw) (fun e' he' hwithin' => ?_) hlast,
      isOverwritten_perm hwar, hover]
    · rfl
    · rw [isOverwritten_perm hwar]
      refine overwritten_namedFirst ?_
      cases hover' : isOverwritten regions war e' with
      | true => exact .inl rfl
      | false => exact .inr (hkept.1 ⟨e', hperm.mem_iff.1 he', hwithin', hover'⟩)
  · cases hwar : war.all isNamed with
    | true =>
      obtain ⟨e', he', hwithin', hover'⟩ := hkept.2 hwar
      obtain ⟨raw', hperm, hlast⟩ := exists_perm_getLast? he' hwithin'
      refine ⟨raw', war, hperm, Perm.refl war, .inl ?_⟩
      rw [writtenFirst_eq_last hname (hperm.all_eq.trans hraw)
        (fun e _ _ => overwritten_of_named hwar e) hlast, hover']
      rfl
    | false =>
      obtain ⟨w, hw, hunnamed⟩ := all_eq_false.1 hwar
      obtain ⟨s, t, rfl⟩ := append_of_mem hw
      refine ⟨raw, w :: (s ++ t), Perm.refl raw, perm_middle.symm, .inr ?_⟩
      refine writtenFirst_eq_error hname ⟨e, he, fun found => ?_⟩
      rw [readTurn, if_pos (all_eq_true.1 hraw e he), if_pos hwithin, Access.overwritten, if_neg hunnamed]
      rfl

theorem writtenFirst_perm_iff :
    (∀ raw' war' reverseRaw' reverseWar', raw' ~ raw → war' ~ war → reverseRaw' ~ reverseRaw →
      reverseWar' ~ reverseWar →
      writtenFirst name regions raw' war' reverseRaw' reverseWar' tree =
        writtenFirst name regions raw war reverseRaw reverseWar tree) ↔
        ¬ HangsOnOrder name regions raw war tree := by
  constructor
  · intro hsame h
    obtain ⟨⟨raw₁, war₁, hraw₁, hwar₁, hfalse⟩, raw₂, war₂, hraw₂, hwar₂, hother⟩ :=
      h.exists_orders reverseRaw reverseWar
    rw [hsame raw₁ war₁ _ _ hraw₁ hwar₁ (Perm.refl _) (Perm.refl _)] at hfalse
    rw [hsame raw₂ war₂ _ _ hraw₂ hwar₂ (Perm.refl _) (Perm.refl _), hfalse] at hother
    simp at hother
  · intro h raw' war' reverseRaw' reverseWar' hraw hwar hreverseRaw hreverseWar
    have h' : ¬ HangsOnOrder name regions raw' war' tree := fun h' => h (h'.perm hraw.symm hwar.symm)
    rw [writtenFirst_eq_settledAnswer h', writtenFirst_eq_settledAnswer h]
    simp only [settledAnswer, hraw.all_eq, hraw.any_eq, hwar.all_eq, isOverwritten_perm hwar,
      readIn_perm hraw hwar hreverseRaw hreverseWar]

end ParallelPatterns.Access
