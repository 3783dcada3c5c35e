import Mathlib.Data.List.Forall2
import ParallelPatterns.Device.Context

/-!
# Computations that may fail

How chains of results and of steps on a state succeed: link by link. The proofs about analyses and
about steps of a context take computations apart by these facts and never look inside of the monads.
-/

namespace ParallelPatterns

open List

variable {α β σ : Type} {b b' : β} {a : α} {e : Failure} {t : ExceptT Failure (StateM σ) α} {g g' : Graph}

variable {x r : Result α} {R : α → β → Prop}

theorem bind_eq_ok_iff {f : α → Result β} : (x >>= f) = .ok b ↔ ∃ a, x = .ok a ∧ f a = .ok b := by
  cases x <;> simp [bind, Except.bind]

theorem getDM_eq_ok_iff {o : Option α} : o.getDM (.error e) = (.ok a : Result α) ↔ o = some a := by
  cases o <;> simp [pure, Except.pure]

section

variable {f : α → Result β} {xs : List α} {ys : List β}

theorem forall₂_of_mapM_eq_ok (h : xs.mapM f = .ok ys) : Forall₂ (fun x y => f x = .ok y) xs ys := by
  induction xs generalizing ys with
  | nil =>
    cases h
    exact .nil
  | cons x xs ih =>
    rw [mapM_cons] at h
    obtain ⟨y, hy, h⟩ := bind_eq_ok_iff.1 h
    obtain ⟨zs, hzs, h⟩ := bind_eq_ok_iff.1 h
    cases h
    exact .cons hy (ih hzs)

theorem exists_of_mapM_eq_ok (h : xs.mapM f = .ok ys) {x : α} (hx : x ∈ xs) : ∃ y, f x = .ok y := by
  replace h := forall₂_of_mapM_eq_ok h
  induction h with
  | nil => cases hx
  | @cons _ y _ _ hy _ ih =>
    rcases mem_cons.1 hx with rfl | hx
    · exact ⟨y, hy⟩
    · exact ih hx

theorem mem_of_mapM_eq_ok (h : xs.mapM f = .ok ys) (y : β) : y ∈ ys ↔ ∃ x ∈ xs, f x = .ok y := by
  replace h := forall₂_of_mapM_eq_ok h
  induction h with
  | nil => simp
  | cons hz _ ih => simp [ih, hz, eq_comm]

theorem mem_toOption_iff : a ∈ x.toOption ↔ x = .ok a := by
  cases x <;> simp [Except.toOption]

theorem exists_of_mapM_eq_error (h : xs.mapM f = .error e) : ∃ x ∈ xs, f x = .error e := by
  induction xs with
  | nil => cases h
  | cons x xs ih =>
    rw [mapM_cons] at h
    cases hx : f x with
    | error e' =>
      rw [hx] at h
      cases h
      exact ⟨x, by simp, hx⟩
    | ok y =>
      cases hxs : xs.mapM f with
      | error e' =>
        rw [hx, hxs] at h
        cases h
        obtain ⟨z, hz, herror⟩ := ih hxs
        exact ⟨z, by simp [hz], herror⟩
      | ok ys =>
        rw [hx, hxs] at h
        cases h

theorem exists_forall₂_mapM (h : ∀ x ∈ xs, ∃ y, f x = .ok y ∧ R x y) :
    ∃ ys, xs.mapM f = .ok ys ∧ Forall₂ R xs ys := by
  induction xs with
  | nil => exact ⟨[], rfl, .nil⟩
  | cons x xs ih =>
    obtain ⟨⟨y, hy, hR⟩, h⟩ := forall_mem_cons.1 h
    obtain ⟨ys, hys, hRs⟩ := ih h
    exact ⟨y :: ys, by rw [mapM_cons, hy, hys]; rfl, .cons hR hRs⟩

theorem exists_mapM_eq_ok (h : ∀ x ∈ xs, ∃ y, f x = .ok y) :
    ∃ ys, xs.mapM f = .ok ys ∧ ∀ y, y ∈ ys ↔ ∃ x ∈ xs, f x = .ok y := by
  obtain ⟨ys, hys, -⟩ := exists_forall₂_mapM (R := fun _ _ => True) fun x hx => by simpa using h x hx
  exact ⟨ys, hys, mem_of_mapM_eq_ok hys⟩

theorem exists_mapM_of_spec (h : ∀ x ∈ xs, ∃ y, f x = .ok y ∧ R x y) :
    ∃ ys, xs.mapM f = .ok ys ∧ (∀ y ∈ ys, ∃ x ∈ xs, R x y) ∧ ∀ x ∈ xs, ∃ y ∈ ys, R x y := by
  obtain ⟨ys, hys, hmem⟩ := exists_mapM_eq_ok fun x hx => (h x hx).imp fun _ h => h.1
  refine ⟨ys, hys, fun y hy => ?_, fun x hx => ?_⟩
  · obtain ⟨x, hx, hxy⟩ := (hmem y).1 hy
    obtain ⟨y', hy', hR⟩ := h x hx
    exact ⟨x, hx, Except.ok.inj (hy'.symm.trans hxy) ▸ hR⟩
  · obtain ⟨y, hxy, hR⟩ := h x hx
    exact ⟨y, (hmem y).2 ⟨x, hx, hxy⟩, hR⟩

theorem mapM_eq_error (h : ∀ x ∈ xs, f x = .error e ∨ ∃ y, f x = .ok y)
    (hfails : ∃ x ∈ xs, f x = .error e) : xs.mapM f = .error e := by
  cases hxs : xs.mapM f with
  | ok ys =>
    obtain ⟨x, hx, hfx⟩ := hfails
    obtain ⟨y, hy⟩ := exists_of_mapM_eq_ok hxs hx
    rw [hfx] at hy
    cases hy
  | error e' =>
    obtain ⟨x, hx, hfx⟩ := exists_of_mapM_eq_error hxs
    rcases h x hx with herror | ⟨y, hok⟩
    · rw [hfx] at herror
      cases herror
      rfl
    · rw [hok] at hfx
      cases hfx

theorem map_eq_of_mapM_eq_ok {γ : Type} (h : xs.mapM f = .ok ys) {k : β → γ} {l : α → γ}
    (hkl : ∀ x y, f x = .ok y → k y = l x) : ys.map k = xs.map l := by
  rw [← forall₂_eq_eq_eq, forall₂_map_left_iff, forall₂_map_right_iff]
  exact ((forall₂_of_mapM_eq_ok h).imp hkl).flip

theorem exists_mapM_forall₂ {γ : Type} {k : α → Result γ} {R : γ → β → Prop}
    (hfk : ∀ x ∈ xs, ∀ y, f x = .ok y → ∃ z, k x = .ok z ∧ R z y) (h : xs.mapM f = .ok ys) :
    ∃ zs, xs.mapM k = .ok zs ∧ Forall₂ R zs ys := by
  replace h := forall₂_of_mapM_eq_ok h
  induction h with
  | nil => exact ⟨[], rfl, .nil⟩
  | @cons x y xs ys hxy _ ih =>
    obtain ⟨z, hz, hR⟩ := hfk x (.head xs) y hxy
    obtain ⟨zs, hzs, hRs⟩ := ih fun x' hx' => hfk x' (.tail x hx')
    refine ⟨z :: zs, ?_, .cons hR hRs⟩
    rw [mapM_cons, hz, hzs]
    rfl

end

section

variable {f : β → α → Result β} {xs : List α}

theorem exists_foldlM_eq_ok (hstep : ∀ b, ∀ x ∈ xs, ∃ b', f b x = .ok b') (b : β) :
    ∃ b', xs.foldlM f b = .ok b' := by
  induction xs generalizing b with
  | nil => exact ⟨b, rfl⟩
  | cons x xs ih =>
    obtain ⟨b₁, hfirst⟩ := hstep b x mem_cons_self
    obtain ⟨b', hrest⟩ := ih (fun b y hy => hstep b y (mem_cons_of_mem x hy)) b₁
    refine ⟨b', ?_⟩
    rw [foldlM_cons, bind_eq_ok_iff]
    exact ⟨b₁, hfirst, hrest⟩

theorem foldlM_eq_error
    (hstep : ∀ b, ∀ x ∈ xs, f b x = .error e ∨ ∃ b', f b x = .ok b')
    (hfails : ∃ x ∈ xs, ∀ b, f b x = .error e) (b : β) : xs.foldlM f b = .error e := by
  induction xs generalizing b with
  | nil =>
    obtain ⟨x, hx, -⟩ := hfails
    cases hx
  | cons x xs ih =>
    rw [foldlM_cons]
    rcases hstep b x mem_cons_self with herror | ⟨b₁, hfirst⟩
    · rw [herror]
      rfl
    · rw [hfirst]
      refine ih (fun b y hy => hstep b y (mem_cons_of_mem x hy)) ?_ b₁
      obtain ⟨y, hy, hfy⟩ := hfails
      rcases mem_cons.1 hy with rfl | hy
      · rw [hfy b] at hfirst
        cases hfirst
      · exact ⟨y, hy, hfy⟩

theorem foldlM_keeps {P : β → Prop} (hstep : ∀ b a b', P b → f b a = .ok b' → P b') (hb : P b)
    (h : xs.foldlM f b = .ok b') : P b' := by
  induction xs generalizing b with
  | nil =>
    cases h
    exact hb
  | cons x xs ih =>
    rw [foldlM_cons, bind_eq_ok_iff] at h
    obtain ⟨b₁, hfirst, hrest⟩ := h
    exact ih (hstep b x b₁ hb hfirst) hrest

end

variable {f : α → ExceptT Failure (StateM σ) β} {s : σ} {xs : List α}

theorem filterMapM_eq_ok {f : α → Result (Option β)} {ys : List β} (h : xs.filterMapM f = .ok ys) :
    (∀ x ∈ xs, ∃ o, f x = .ok o) ∧ ∀ y, y ∈ ys ↔ ∃ x ∈ xs, f x = .ok (some y) := by
  induction xs generalizing ys with
  | nil =>
    cases h
    exact ⟨by simp, by simp⟩
  | cons x xs ih =>
    rw [filterMapM_cons] at h
    obtain ⟨o, ho, h⟩ := bind_eq_ok_iff.1 h
    cases o with
    | none =>
      obtain ⟨hall, hmem⟩ := ih h
      exact ⟨forall_mem_cons.2 ⟨⟨none, ho⟩, hall⟩, fun y => by simp [hmem, ho]⟩
    | some z =>
      obtain ⟨zs, hzs, h⟩ := bind_eq_ok_iff.1 h
      cases h
      obtain ⟨hall, hmem⟩ := ih hzs
      exact ⟨forall_mem_cons.2 ⟨⟨some z, ho⟩, hall⟩, fun y => by simp [hmem, ho, eq_comm]⟩

theorem filterMapM_congr {f f' : α → Result (Option β)} (h : ∀ x ∈ xs, f x = f' x) :
    xs.filterMapM f = xs.filterMapM f' := by
  induction xs with
  | nil => rfl
  | cons x xs ih =>
    rw [filterMapM_cons, filterMapM_cons, h x mem_cons_self,
      ih fun y hy => h y (mem_cons_of_mem x hy)]

theorem forall_of_anyM_eq_ok_false {p : α → Result Bool} (h : xs.anyM p = .ok false) :
    ∀ x ∈ xs, p x = .ok false := by
  induction xs with
  | nil => simp
  | cons x xs ih =>
    rw [anyM, bind_eq_ok_iff] at h
    obtain ⟨b, hb, hrest⟩ := h
    cases b with
    | true => cases hrest
    | false => exact forall_mem_cons.2 ⟨hb, ih hrest⟩

theorem exists_of_anyM_eq_error {p : α → Result Bool} (h : xs.anyM p = .error e) :
    ∃ before x after, xs = before ++ x :: after ∧ (∀ y ∈ before, p y = .ok false) ∧ p x = .error e := by
  induction xs with
  | nil => cases h
  | cons x xs ih =>
    rw [anyM] at h
    cases hx : p x with
    | error e' =>
      rw [hx] at h
      exact ⟨[], x, xs, rfl, by simp, by rw [hx]; exact h⟩
    | ok b =>
      rw [hx] at h
      cases b with
      | true => cases h
      | false =>
        obtain ⟨before, y, after, rfl, hbefore, hy⟩ := ih h
        exact ⟨x :: before, y, after, rfl, forall_mem_cons.2 ⟨hx, hbefore⟩, hy⟩

theorem anyM_eq_error {p : α → Result Bool} {before after : List α} {x : α}
    (hbefore : ∀ y ∈ before, p y = .error e ∨ p y = .ok false) (hx : p x = .error e) :
    (before ++ x :: after).anyM p = .error e := by
  induction before with
  | nil =>
    rw [nil_append, anyM, hx]
    rfl
  | cons y before ih =>
    obtain ⟨hy, hbefore⟩ := forall_mem_cons.1 hbefore
    rw [cons_append, anyM]
    rcases hy with hy | hy
    · rw [hy]
      rfl
    · rw [hy]
      exact ih hbefore

theorem anyM_eq_error_or {p q : α → Result Bool} (h : ∀ x ∈ xs, p x = .error e ∨ p x = q x) :
    xs.anyM p = .error e ∨ xs.anyM p = xs.anyM q := by
  induction xs with
  | nil => exact .inr rfl
  | cons x xs ih =>
    obtain ⟨hx, h⟩ := forall_mem_cons.1 h
    rw [anyM, anyM]
    rcases hx with hx | hx
    · rw [hx]
      exact .inl rfl
    · rw [hx]
      cases q x with
      | error e' => exact .inr rfl
      | ok b =>
        cases b with
        | true => exact .inr rfl
        | false => exact ih h

theorem exists_of_anyM_eq_ok_true {p : α → Result Bool} (h : xs.anyM p = .ok true) : ∃ x ∈ xs, p x = .ok true := by
  induction xs with
  | nil => cases h
  | cons x xs ih =>
    rw [anyM, bind_eq_ok_iff] at h
    obtain ⟨b, hb, hrest⟩ := h
    cases b with
    | true => exact ⟨x, by simp, hb⟩
    | false =>
      obtain ⟨y, hy, htrue⟩ := ih hrest
      exact ⟨y, by simp [hy], htrue⟩

section

variable {p : α → Result Bool} {xs ys : List α}

/-- Does an element pass a test that may fail? -/
def passes (p : α → Result Bool) (x : α) : Bool := (p x).toOption.getD false

theorem eq_ok_iff_passes {x : α} {b : Bool} : p x = .ok b ↔ p x = .ok (passes p x) ∧ passes p x = b := by
  unfold passes
  cases p x with
  | error e => simp
  | ok c => simp [Except.toOption]

theorem filterAuxM_eq_ok_iff {acc : List α} : xs.filterAuxM p acc = .ok ys ↔
    (∀ x ∈ xs, p x = .ok (passes p x)) ∧ ys = (xs.filter (passes p)).reverse ++ acc := by
  induction xs generalizing acc with
  | nil => simp [pure, Except.pure, eq_comm]
  | cons x xs ih =>
    rw [filterAuxM, bind_eq_ok_iff, forall_mem_cons, and_assoc]
    constructor
    · rintro ⟨b, hb, hrest⟩
      obtain ⟨hx, rfl⟩ := eq_ok_iff_passes.1 hb
      obtain ⟨hall, rfl⟩ := ih.1 hrest
      refine ⟨hx, hall, ?_⟩
      cases hpasses : passes p x <;> simp [hpasses]
    · rintro ⟨hx, hall, rfl⟩
      refine ⟨_, hx, ih.2 ⟨hall, ?_⟩⟩
      cases hpasses : passes p x <;> simp [hpasses]

theorem filterM_eq_ok_iff :
    xs.filterM p = .ok ys ↔ (∀ x ∈ xs, p x = .ok (passes p x)) ∧ ys = xs.filter (passes p) := by
  simp only [filterM, bind_eq_ok_iff, filterAuxM_eq_ok_iff, pure, Except.pure]
  simp [eq_comm]

theorem mem_of_filterM_eq_ok (h : xs.filterM p = .ok ys) (y : α) : y ∈ ys ↔ y ∈ xs ∧ p y = .ok true := by
  obtain ⟨hall, rfl⟩ := filterM_eq_ok_iff.1 h
  rw [mem_filter]
  exact and_congr_right fun hy => ⟨fun hp => eq_ok_iff_passes.2 ⟨hall y hy, hp⟩,
    fun hp => (eq_ok_iff_passes.1 hp).2⟩

theorem exists_filterM_eq_ok_iff : (∃ ys, xs.filterM p = .ok ys) ↔ ∀ x ∈ xs, ∃ b, p x = .ok b := by
  simp only [filterM_eq_ok_iff, exists_and_left, exists_eq, and_true]
  exact forall₂_congr fun x _ => ⟨fun h => ⟨_, h⟩, fun ⟨_, h⟩ => (eq_ok_iff_passes.1 h).1⟩

end

variable {s' : σ}

theorem run_bind (t : ExceptT Failure (StateM σ) α) (f : α → ExceptT Failure (StateM σ) β) (s : σ) :
    (ExceptT.run (t >>= f)).run s =
      match (ExceptT.run t).run s with
      | (.ok a, s') => (ExceptT.run (f a)).run s'
      | (.error e, s') => (.error e, s') := by
  rw [ExceptT.run_bind, StateT.run_bind]
  rcases (ExceptT.run t).run s with ⟨_ | _, _⟩ <;> rfl

theorem run_bind_of_ok (h : (ExceptT.run t).run s = (.ok a, s')) :
    (ExceptT.run (t >>= f)).run s = (ExceptT.run (f a)).run s' := by rw [run_bind, h]

theorem run_bind_of_error (h : (ExceptT.run t).run s = (.error e, s')) :
    (ExceptT.run (t >>= f)).run s = (.error e, s') := by rw [run_bind, h]

theorem run_lift_of_ok (h : r = .ok a) (s : σ) :
    (ExceptT.run (liftM r : ExceptT Failure (StateM σ) α)).run s = (.ok a, s) := by
  rw [h]
  rfl

theorem run_get_bind (f : σ → ExceptT Failure (StateM σ) β) (s : σ) :
    (ExceptT.run (get >>= f)).run s = (ExceptT.run (f s)).run s := rfl

namespace Analysis

variable {f : α → Analysis β} {xs : List α}

theorem runOn_bind_eq_ok {t : Analysis α} (h : (t >>= f).runOn g = (.ok b, g')) :
    ∃ a g₁, t.runOn g = (.ok a, g₁) ∧ (f a).runOn g₁ = (.ok b, g') := by
  rw [runOn, run_bind] at h
  split at h
  · next a g₁ ht => exact ⟨a, g₁, ht, h⟩
  · cases h

theorem runOn_lift_eq_ok (h : (lift r).runOn g = (.ok a, g')) : r = .ok a ∧ g = g' := by
  cases r with
  | ok b =>
    cases h
    exact ⟨rfl, rfl⟩
  | error e => cases h

theorem runOn_lift_bind_eq_ok (h : (lift r >>= f).runOn g = (.ok b, g')) :
    ∃ a, r = .ok a ∧ (f a).runOn g = (.ok b, g') := by
  obtain ⟨a, g₁, hlift, h⟩ := runOn_bind_eq_ok h
  obtain ⟨hr, rfl⟩ := runOn_lift_eq_ok hlift
  exact ⟨a, hr, h⟩

theorem runOn_graph_bind (f : Graph → Analysis β) (g : Graph) : (graph >>= f).runOn g = (f g).runOn g := rfl

theorem runOn_query_bind_eq_ok {q : Graph → Result α} (h : (query q >>= f).runOn g = (.ok b, g')) :
    ∃ a, q g = .ok a ∧ (f a).runOn g = (.ok b, g') :=
  runOn_lift_bind_eq_ok h

theorem runOn_bind_of_ok {t : Analysis α} (h : t.runOn g = (.ok a, g')) : (t >>= f).runOn g = (f a).runOn g' :=
  run_bind_of_ok h

theorem runOn_query_of_ok {f : Graph → Result α} (h : f g = .ok a) : (query f).runOn g = (.ok a, g) := by
  rw [query, runOn_graph_bind, h]
  rfl

theorem foldlM_runOn_induction {f : β → α → Analysis β} {M : List α → β → Graph → β → Graph → Prop}
    (nil : ∀ b g, M [] b g b g)
    (cons : ∀ x xs b g b₁ g₁ b' g', (f b x).runOn g = (.ok b₁, g₁) → M xs b₁ g₁ b' g' → M (x :: xs) b g b' g')
    (h : (xs.foldlM f b).runOn g = (.ok b', g')) : M xs b g b' g' := by
  induction xs generalizing b g with
  | nil =>
    cases h
    exact nil _ _
  | cons x xs ih =>
    obtain ⟨b₁, g₁, hfirst, hrest⟩ := runOn_bind_eq_ok h
    exact cons x xs b g b₁ g₁ b' g' hfirst (ih hrest)

theorem mapM_runOn_keeps {P : Graph → Prop} (hstep : ∀ x y g g', P g → (f x).runOn g = (.ok y, g') → P g' ∧ R x y)
    {ys : List β} (hg : P g) (h : (xs.mapM f).runOn g = (.ok ys, g')) : P g' ∧ ∀ y ∈ ys, ∃ x ∈ xs, R x y := by
  induction xs generalizing ys g with
  | nil =>
    cases h
    exact ⟨hg, fun y hy => absurd hy not_mem_nil⟩
  | cons x xs ih =>
    rw [mapM_cons] at h
    obtain ⟨y, g₁, hfirst, h⟩ := runOn_bind_eq_ok h
    obtain ⟨rest, g₂, hrest, h⟩ := runOn_bind_eq_ok h
    cases h
    obtain ⟨hg₁, hy⟩ := hstep x y g g₁ hg hfirst
    obtain ⟨hg', hrest⟩ := ih hg₁ hrest
    refine ⟨hg', fun z hz => ?_⟩
    rcases mem_cons.1 hz with rfl | hz
    · exact ⟨x, mem_cons_self, hy⟩
    · obtain ⟨x', hx', hR⟩ := hrest z hz
      exact ⟨x', mem_cons_of_mem x hx', hR⟩

end Analysis

namespace Tracking

variable {c : DeviceContext}

theorem runOn_bind_of_ok {t : Tracking α} {f : α → Tracking β} {c' : DeviceContext}
    (h : t.runOn c = (.ok a, c')) : (t >>= f).runOn c = (f a).runOn c' :=
  run_bind_of_ok h

theorem runOn_bind_of_error {t : Tracking α} {f : α → Tracking β} {c' : DeviceContext}
    (h : t.runOn c = (.error e, c')) : (t >>= f).runOn c = (.error e, c') :=
  run_bind_of_error h

@[simp]
theorem runOn_pure (a : α) (c : DeviceContext) : (pure a : Tracking α).runOn c = (.ok a, c) := rfl

@[simp]
theorem runOn_modify (f : DeviceContext → DeviceContext) (c : DeviceContext) :
    (modify f : Tracking Unit).runOn c = (.ok (), f c) := rfl

@[simp]
theorem runOn_get (c : DeviceContext) : (get : Tracking DeviceContext).runOn c = (.ok c, c) := rfl

theorem runOn_query_of_ok {f : DeviceContext → Result α} (h : f c = .ok a) :
    (DeviceContext.query f).runOn c = (.ok a, c) := by
  unfold DeviceContext.query
  rw [runOn_bind_of_ok (runOn_get c), h]
  rfl

theorem runOn_query_of_error {f : DeviceContext → Result α}
    (h : f c = .error e) : (DeviceContext.query f).runOn c = (.error e, c) := by
  unfold DeviceContext.query
  rw [runOn_bind_of_ok (runOn_get c), h]
  rfl

end Tracking

end ParallelPatterns
