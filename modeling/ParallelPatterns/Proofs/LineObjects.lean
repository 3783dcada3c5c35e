import Mathlib.Data.List.Nodup
import ParallelPatterns.Proofs.Requests

/-!
# Lines as objects

A buffer whose lines are objects in a memory, which are changed in place: the list of the lines,
each line, and the regions of each line lie at addresses of their own, and may be shared. A `Store`
shows a buffer (`Store.view`). Each step of an insertion, and going back to a copy of the lines, is
shown to change what the store shows as expected (`Becomes`). That needs two things: the lines of
the buffer share nothing with each other (`Separated`), and a step leaves all objects that do not
belong to the buffer, such as the copy (`Keeps`).
-/

namespace ParallelPatterns.InPlace

open List Function SourceBuffer

variable {as bs : List Nat} {s s' : Store}

/-- A line as an object. Its regions are a list of their own, at an address. -/
structure LineObject where
  number : Option Int := none
  content : String
  owned : Option Int := none
  regions : Nat
  parent : Int

/-- Objects by their addresses: lists of lines, lines, and lists of regions. From `free` on there
are none. -/
structure Memory where
  lists : Nat → List Nat
  lines : Nat → LineObject
  regions : Nat → List Int
  free : Nat

/-! ## New objects -/

namespace Memory

variable (m : Memory)

variable (a : Nat)

/-- What a line object shows. -/
def lineAt : SourceLine :=
  { number := (m.lines a).number
    content := (m.lines a).content
    owned := (m.lines a).owned
    regions := m.regions (m.lines a).regions
    parent := (m.lines a).parent }

/-- A new list of regions. -/
def newRegions (rs : List Int) (m : Memory) : Nat × Memory :=
  (m.free, { m with regions := Function.update m.regions m.free rs, free := m.free + 1 })

/-- A new line. -/
def newLine (o : LineObject) (m : Memory) : Nat × Memory :=
  (m.free, { m with lines := Function.update m.lines m.free o, free := m.free + 1 })

/-- A new list of lines. -/
def newList (as : List Nat) (m : Memory) : Nat × Memory :=
  (m.free, { m with lists := Function.update m.lists m.free as, free := m.free + 1 })

/-- A new line that shows the same, with regions of its own. -/
def copyLine (m : Memory) : Nat × Memory :=
  let (r, m') := m.newRegions (m.regions (m.lines a).regions)
  m'.newLine { m.lines a with regions := r }

/-- New lines that show the same. -/
def copyLines : List Nat → Memory → List Nat × Memory
  | [], m => ([], m)
  | a :: as, m =>
    let (b, m) := m.copyLine a
    let (bs, m) := copyLines as m
    (b :: bs, m)

/-- A new list of new lines that show the same. -/
def copyList (m : Memory) : Nat × Memory :=
  let (bs, m) := copyLines (m.lists a) m
  m.newList bs

/-- There are new objects, and the others are as they were. -/
structure Extends (m m' : Memory) : Prop where
  free_le : m.free ≤ m'.free
  lists_eq : ∀ a < m.free, m'.lists a = m.lists a
  lines_eq : ∀ a < m.free, m'.lines a = m.lines a
  regions_eq : ∀ a < m.free, m'.regions a = m.regions a

/-- Lines that share nothing. -/
structure Separate (m : Memory) (as : List Nat) : Prop where
  lt : ∀ a ∈ as, a < m.free
  regions_lt : ∀ a ∈ as, (m.lines a).regions < m.free
  nodup : as.Nodup
  regions_nodup : (as.map fun a => (m.lines a).regions).Nodup

theorem Separate.of_regions {m m' : Memory} (h : Separate m as) (hfree : m.free ≤ m'.free)
    (hregions : ∀ a ∈ as, (m'.lines a).regions = (m.lines a).regions) : Separate m' as where
  lt a ha := Nat.lt_of_lt_of_le (h.lt a ha) hfree
  regions_lt a ha := hregions a ha ▸ Nat.lt_of_lt_of_le (h.regions_lt a ha) hfree
  nodup := h.nodup
  regions_nodup := map_congr_left hregions ▸ h.regions_nodup

theorem separate_singleton {m : Memory} {a : Nat} (ha : a < m.free)
    (hr : (m.lines a).regions < m.free) : Separate m [a] :=
  ⟨forall_mem_singleton.2 ha, forall_mem_singleton.2 hr, nodup_singleton _, nodup_singleton _⟩

theorem Separate.append {m : Memory} (h : Separate m as) (h' : Separate m bs)
    (hne : ∀ a ∈ as, ∀ b ∈ bs, a ≠ b ∧ (m.lines a).regions ≠ (m.lines b).regions) : Separate m (as ++ bs) where
  lt := forall_mem_append.2 ⟨h.lt, h'.lt⟩
  regions_lt := forall_mem_append.2 ⟨h.regions_lt, h'.regions_lt⟩
  nodup := h.nodup.append h'.nodup fun a ha hb => (hne a ha a hb).1 rfl
  regions_nodup := by
    rw [map_append]
    refine h.regions_nodup.append h'.regions_nodup fun r hr hr' => ?_
    obtain ⟨a, ha, rfl⟩ := mem_map.1 hr
    obtain ⟨b, hb, heq⟩ := mem_map.1 hr'
    exact (hne a ha b hb).2 heq.symm

namespace Extends

variable {m m' m'' : Memory}

theorem refl (m : Memory) : Extends m m := ⟨Nat.le_refl _, fun _ _ => rfl, fun _ _ => rfl, fun _ _ => rfl⟩

theorem trans (h : Extends m m') (h' : Extends m' m'') : Extends m m'' where
  free_le := Nat.le_trans h.free_le h'.free_le
  lists_eq a ha := (h'.lists_eq a (Nat.lt_of_lt_of_le ha h.free_le)).trans (h.lists_eq a ha)
  lines_eq a ha := (h'.lines_eq a (Nat.lt_of_lt_of_le ha h.free_le)).trans (h.lines_eq a ha)
  regions_eq a ha := (h'.regions_eq a (Nat.lt_of_lt_of_le ha h.free_le)).trans (h.regions_eq a ha)

theorem newRegions (rs : List Int) (m : Memory) : Extends m (m.newRegions rs).2 where
  free_le := Nat.le_succ _
  lists_eq _ _ := rfl
  lines_eq _ _ := rfl
  regions_eq _ ha := update_of_ne (Nat.ne_of_lt ha) ..

theorem newLine (o : LineObject) (m : Memory) : Extends m (m.newLine o).2 where
  free_le := Nat.le_succ _
  lists_eq _ _ := rfl
  lines_eq _ ha := update_of_ne (Nat.ne_of_lt ha) ..
  regions_eq _ _ := rfl

theorem newList (as : List Nat) (m : Memory) : Extends m (m.newList as).2 where
  free_le := Nat.le_succ _
  lists_eq _ ha := update_of_ne (Nat.ne_of_lt ha) ..
  lines_eq _ _ := rfl
  regions_eq _ _ := rfl

theorem lineAt_eq (h : Extends m m') {a : Nat} (ha : a < m.free)
    (hr : (m.lines a).regions < m.free) : m'.lineAt a = m.lineAt a := by
  unfold lineAt
  rw [h.lines_eq a ha, h.regions_eq _ hr]

theorem separate (h : Extends m m') (has : Separate m as) : Separate m' as :=
  has.of_regions h.free_le fun a ha => by rw [h.lines_eq a (has.lt a ha)]

theorem map_lineAt (h : Extends m m') (has : Separate m as) : as.map m'.lineAt = as.map m.lineAt :=
  map_congr_left fun a ha => h.lineAt_eq (has.lt a ha) (has.regions_lt a ha)

end Extends

/-- Lines are new and show the same as others, and they share nothing with each other. -/
structure Copied (m : Memory) (as bs : List Nat) (m' : Memory) : Prop where
  ext : Extends m m'
  map_lineAt : bs.map m'.lineAt = as.map m.lineAt
  separate : Separate m' bs
  since : ∀ b ∈ bs, m.free ≤ b ∧ m.free ≤ (m'.lines b).regions

theorem copied_copyLine : Copied m [a] [(m.copyLine a).1] (m.copyLine a).2 where
  ext := (Extends.newRegions _ m).trans (.newLine _ _)
  map_lineAt := by simp [copyLine, newRegions, newLine, lineAt]
  separate := by
    have hregions : ((m.copyLine a).2.lines (m.copyLine a).1).regions = m.free := by
      simp [copyLine, newRegions, newLine]
    refine separate_singleton (Nat.lt_succ_self _) ?_
    rw [hregions]
    exact Nat.lt_succ_of_lt (Nat.lt_succ_self _)
  since := by simp [copyLine, newRegions, newLine]

theorem Copied.append {m m₁ m₂ : Memory} {as' bs' : List Nat} (h : Copied m as bs m₁)
    (h' : Copied m₁ as' bs' m₂) (hlt : ∀ a ∈ as', a < m.free ∧ (m.lines a).regions < m.free) :
    Copied m (as ++ as') (bs ++ bs') m₂ := by
  have hregions : ∀ b ∈ bs, (m₂.lines b).regions = (m₁.lines b).regions := by
    intro b hb
    rw [h'.ext.lines_eq b (h.separate.lt b hb)]
  constructor
  · exact h.ext.trans h'.ext
  · rw [map_append, map_append, h'.ext.map_lineAt h.separate, h.map_lineAt, h'.map_lineAt,
      map_congr_left fun a ha => h.ext.lineAt_eq (hlt a ha).1 (hlt a ha).2]
  · refine (h'.ext.separate h.separate).append h'.separate fun b hb b' hb' => ?_
    -- addresses of the first copies lie below the free address that the second ones start from
    have hold := h.separate.lt b hb
    have hold' := h.separate.regions_lt b hb
    have hnew := h'.since b' hb'
    rw [hregions b hb]
    omega
  · intro b hb
    rcases mem_append.1 hb with hb | hb
    · rw [hregions b hb]
      exact h.since b hb
    · have hle := h.ext.free_le
      have hnew := h'.since b hb
      omega

theorem copied_copyLines {m : Memory} (hlt : ∀ a ∈ as, a < m.free ∧ (m.lines a).regions < m.free) :
    Copied m as (m.copyLines as).1 (m.copyLines as).2 := by
  induction as generalizing m with
  | nil =>
    have hnone : Separate m [] := ⟨by simp, by simp, nodup_nil, nodup_nil⟩
    exact ⟨.refl m, rfl, hnone, by simp [copyLines]⟩
  | cons a as ih =>
    have hfirst := m.copied_copyLine a
    have htail : ∀ c ∈ as, c < m.free ∧ (m.lines c).regions < m.free := fun c hc =>
      hlt c (mem_cons_of_mem a hc)
    have hrest := ih fun c hc => by
      rw [hfirst.ext.lines_eq c (htail c hc).1]
      have hle := hfirst.ext.free_le
      have hc := htail c hc
      omega
    exact hfirst.append hrest htail

theorem newLine_spec {m : Memory} (has : Separate m as) (rs : List Int) {o : LineObject}
    (ho : o.regions = m.free) : let m' := ((m.newRegions rs).2.newLine o).2
    Extends m m' ∧ Separate m' ((m.free + 1) :: as) ∧ m'.lines (m.free + 1) = o ∧ m'.regions m.free = rs := by
  have hext : Extends m ((m.newRegions rs).2.newLine o).2 := (Extends.newRegions rs m).trans (.newLine o _)
  have hline : ((m.newRegions rs).2.newLine o).2.lines (m.free + 1) = o := update_self ..
  have hfree : ((m.newRegions rs).2.newLine o).2.free = m.free + 2 := rfl
  refine ⟨hext, (separate_singleton ?_ ?_).append (hext.separate has) ?_, hline, update_self ..⟩
  · omega
  · rw [hline]
    omega
  · intro a ha b hb
    obtain rfl := mem_singleton.1 ha
    have hlt := has.lt b hb
    have hlt' := has.regions_lt b hb
    rw [hline, hext.lines_eq b hlt]
    omega

/-! ## Changes in place -/

/-- A line with a number that is covered gets the regions of a list that it does not have yet. -/
def markLine (covered : Int → Bool) (source : Nat) (m : Memory) (a : Nat) : Memory :=
  if (m.lines a).number.any covered then
    let own := (m.lines a).regions
    { m with
      regions := Function.update m.regions own
        (m.regions own ++ (m.regions source).filter fun r => !(m.regions own).contains r) }
  else m

/-- Ends a line with a line feed. -/
def closeLine : Memory :=
  if Text.ends "\n" (m.lines a).content then m
  else
    { m with lines := Function.update m.lines a { m.lines a with content := (m.lines a).content ++ "\n" } }

theorem insertBeside_eq_or_perm (number : Nat → Option Int) (isBefore : Bool) (n : Int) (new : Nat)
    (as : List Nat) :
    insertBeside number isBefore n new as = as ∨ (insertBeside number isBefore n new as).Perm (new :: as) := by
  induction as with
  | nil => exact .inl rfl
  | cons a as ih =>
    rw [insertBeside]
    by_cases hn : number a == some n
    · rw [if_pos hn]
      cases isBefore with
      | true => exact .inr (.refl _)
      | false => exact .inr (.swap new a as)
    · rw [if_neg hn]
      rcases ih with heq | hperm
      · exact .inl (by rw [heq])
      · exact .inr ((hperm.cons a).trans (.swap new a as))

/-- A change of lines, one at a time: a line shows what a function gives, which may depend on a list
of regions, and what does not belong to these lines stays as it is. -/
structure Changes (source : Nat) (f : List Int → SourceLine → SourceLine) (m : Memory)
    (as : List Nat) (m' : Memory) : Prop where
  lists_eq : m'.lists = m.lists
  free_eq : m'.free = m.free
  same : ∀ a, (m'.lines a).number = (m.lines a).number ∧ (m'.lines a).regions = (m.lines a).regions
  lineAt_eq : ∀ a ∈ as, m'.lineAt a = f (m.regions source) (m.lineAt a)
  lines_eq : ∀ a ∉ as, m'.lines a = m.lines a
  regions_eq : ∀ r, (∀ a ∈ as, (m.lines a).number ≠ none → (m.lines a).regions ≠ r) → m'.regions r = m.regions r

theorem changes_markLine (covered : Int → Bool) (source : Nat) (m : Memory) (a : Nat) :
    Changes source (fun rs l => if l.number.any covered then l.join rs else l) m [a]
      (markLine covered source m a) := by
  have hnumber : (m.lineAt a).number = (m.lines a).number := rfl
  unfold markLine
  split
  case isTrue hcovered =>
    refine ⟨rfl, rfl, fun _ => ⟨rfl, rfl⟩, ?_, fun _ _ => rfl, fun r hr => ?_⟩
    · rw [forall_mem_singleton, hnumber, if_pos hcovered]
      simp [SourceLine.join, lineAt]
    · have hnone : (m.lines a).number ≠ none := fun hnone => by simp [hnone] at hcovered
      exact update_of_ne (forall_mem_singleton.1 hr hnone).symm ..
  case isFalse hcovered =>
    refine ⟨rfl, rfl, fun _ => ⟨rfl, rfl⟩, ?_, fun _ _ => rfl, fun _ _ => rfl⟩
    rw [forall_mem_singleton, hnumber, if_neg hcovered]

theorem changes_closeLine (source : Nat) (m : Memory) (a : Nat) :
    Changes source (fun _ => SourceLine.closed) m [a] (closeLine m a) := by
  have hcontent : (m.lineAt a).content = (m.lines a).content := rfl
  unfold closeLine SourceLine.closed
  split
  case isTrue hends =>
    refine ⟨rfl, rfl, fun _ => ⟨rfl, rfl⟩, ?_, fun _ _ => rfl, fun _ _ => rfl⟩
    rw [forall_mem_singleton, hcontent, if_pos hends]
  case isFalse hends =>
    refine ⟨rfl, rfl, fun c => ?_, ?_, fun c hc => update_of_ne (mt mem_singleton.2 hc) .., fun _ _ => rfl⟩
    · by_cases hc : c = a
      · simp [hc]
      · simp [update_of_ne hc]
    · rw [forall_mem_singleton, hcontent, if_neg hends]
      simp [lineAt]

theorem Changes.lineAt_of_notMem {source : Nat} {f : List Int → SourceLine → SourceLine}
    {m m' : Memory} (h : Changes source f m as m') {c : Nat} (hc : c ∉ as)
    (hne : ∀ a ∈ as, (m.lines a).regions ≠ (m.lines c).regions) : m'.lineAt c = m.lineAt c := by
  unfold lineAt
  rw [h.lines_eq c hc, h.regions_eq _ fun a ha _ => hne a ha]

/-- Lines with lists of their own are changed one after the other, if none of these lists is the one
that the change depends on. -/
theorem changes_foldl {source : Nat} {f : List Int → SourceLine → SourceLine}
    {step : Memory → Nat → Memory} (hstep : ∀ m a, Changes source f m [a] (step m a)) {m : Memory}
    (hnodup : (as.map fun a => (m.lines a).regions).Nodup)
    (hsource : ∀ a ∈ as, (m.lines a).number ≠ none → (m.lines a).regions ≠ source) :
    Changes source f m as (as.foldl step m) := by
  induction as generalizing m with
  | nil => exact ⟨rfl, rfl, fun _ => ⟨rfl, rfl⟩, by simp, fun _ _ => rfl, fun _ _ => rfl⟩
  | cons a as ih =>
    rw [map_cons, nodup_cons] at hnodup
    rw [forall_mem_cons] at hsource
    have hne : ∀ c ∈ as, (m.lines a).regions ≠ (m.lines c).regions := by
      intro c hc heq
      exact hnodup.1 (heq ▸ mem_map_of_mem hc)
    have hfirst := hstep m a
    have hkept := hfirst.regions_eq source (forall_mem_singleton.2 hsource.1)
    -- the first line changes its own list only, which is neither the source nor the list of a later line
    have hrest := ih (m := step m a) (by simpa only [hfirst.same] using hnodup.2)
      (by simpa only [hfirst.same] using hsource.2)
    have hothers := hrest.regions_eq
    simp only [hfirst.same] at hothers
    refine ⟨hrest.lists_eq.trans hfirst.lists_eq, hrest.free_eq.trans hfirst.free_eq,
      by simpa only [hfirst.same, foldl_cons] using hrest.same,
      forall_mem_cons.2 ⟨?_, fun c hc => ?_⟩, fun c hc => ?_, fun r hr => ?_⟩
    · have hlater := hrest.lineAt_of_notMem (fun ha => hne a ha rfl)
        (by simpa only [hfirst.same] using fun c hc => (hne c hc).symm)
      exact hlater.trans (hfirst.lineAt_eq a mem_cons_self)
    · have hother : c ∉ [a] := fun hca => hne c hc (by rw [mem_singleton.1 hca])
      rw [foldl_cons, hrest.lineAt_eq c hc, hkept, hfirst.lineAt_of_notMem hother (by simpa using hne c hc)]
    · rw [mem_cons, not_or] at hc
      exact (hrest.lines_eq c hc.2).trans (hfirst.lines_eq c (mt mem_singleton.1 hc.1))
    · rw [forall_mem_cons] at hr
      exact (hothers r hr.2).trans (hfirst.regions_eq r (forall_mem_singleton.2 hr.1))

end Memory

/-! ## Buffers of objects -/

/-- A buffer whose lines are objects. -/
structure Store extends Memory where
  file : Int
  list : Nat
  length : Int
  nextRegion : Int

namespace Store

/-- The lines of the buffer. -/
def own (s : Store) : List Nat := s.lists s.list

/-- What the buffer shows. -/
def view (s : Store) : SourceBuffer :=
  { file := s.file, lines := s.own.map s.lineAt, length := s.length, nextRegion := s.nextRegion }

/-- The lines of the buffer share nothing. -/
structure Separated (s : Store) : Prop where
  list_lt : s.list < s.free
  separate : s.toMemory.Separate s.own

/-- A list of regions that does not belong to a line of the source. -/
def Fixed (s : Store) (r : Nat) : Prop :=
  r < s.free ∧ ∀ a ∈ s.own, (s.lines a).number ≠ none → (s.lines a).regions ≠ r

/-- What does not belong to the buffer stays as it is, and does not come to belong to it. -/
structure Keeps (s s' : Store) : Prop where
  free_le : s.free ≤ s'.free
  lists_eq : ∀ a < s.free, a ≠ s.list → s'.lists a = s.lists a ∧ a ≠ s'.list
  lines_eq : ∀ a < s.free, a ∉ s.own → s'.lines a = s.lines a ∧ a ∉ s'.own
  regions_eq : ∀ r, s.Fixed r → s'.regions r = s.regions r ∧ s'.Fixed r

/-- A change after which the buffer shows another one. -/
structure Becomes (s s' : Store) (b : SourceBuffer) : Prop where
  separated : s'.Separated
  view_eq : s'.view = b
  keeps : Keeps s s'

theorem Keeps.trans {s'' : Store} (h : Keeps s s') (h' : Keeps s' s'') : Keeps s s'' where
  free_le := Nat.le_trans h.free_le h'.free_le
  lists_eq a ha hne :=
    have hfirst := h.lists_eq a ha hne
    have hrest := h'.lists_eq a (Nat.lt_of_lt_of_le ha h.free_le) hfirst.2
    ⟨hrest.1.trans hfirst.1, hrest.2⟩
  lines_eq a ha hne :=
    have hfirst := h.lines_eq a ha hne
    have hrest := h'.lines_eq a (Nat.lt_of_lt_of_le ha h.free_le) hfirst.2
    ⟨hrest.1.trans hfirst.1, hrest.2⟩
  regions_eq r hr :=
    have hfirst := h.regions_eq r hr
    have hrest := h'.regions_eq r hfirst.2
    ⟨hrest.1.trans hfirst.1, hrest.2⟩

theorem Becomes.trans {s'' : Store} {b b' : SourceBuffer} (h : Becomes s s' b)
    (h' : Becomes s' s'' b') : Becomes s s'' b' :=
  ⟨h'.separated, h'.view_eq, h.keeps.trans h'.keeps⟩

theorem becomes_view (hs : s.Separated) (hlist : s'.list = s.list) (hfree : s.free ≤ s'.free)
    (hlists : ∀ a < s.free, s'.lists a = s.lists a)
    (hlines : ∀ a ∈ s.own, (s'.lines a).number = (s.lines a).number ∧ (s'.lines a).regions = (s.lines a).regions)
    (hothers : ∀ a < s.free, a ∉ s.own → s'.lines a = s.lines a)
    (hregions : ∀ r, s.Fixed r → s'.regions r = s.regions r) : Becomes s s' s'.view := by
  have hown : s'.own = s.own := by
    unfold own
    rw [hlist, hlists s.list hs.list_lt]
  constructor
  · constructor
    · rw [hlist]
      exact Nat.lt_of_lt_of_le hs.list_lt hfree
    · rw [hown]
      exact hs.separate.of_regions hfree fun a ha => (hlines a ha).2
  · rfl
  · constructor
    · exact hfree
    · intro a ha hne
      exact ⟨hlists a ha, by rwa [hlist]⟩
    · intro a ha hne
      exact ⟨hothers a ha hne, by rwa [hown]⟩
    · intro r hr
      refine ⟨hregions r hr, Nat.lt_of_lt_of_le hr.1 hfree, ?_⟩
      rw [hown]
      intro a ha hn
      obtain ⟨hnumber, hplace⟩ := hlines a ha
      rw [hnumber] at hn
      rw [hplace]
      exact hr.2 a ha hn

variable (b : SourceBuffer) {m : Memory}

theorem becomes_of_extends (hs : s.Separated) (h : s.toMemory.Extends m) :
    Becomes s { s with toMemory := m } s.view := by
  have hown : ({ s with toMemory := m } : Store).own = s.own := h.lists_eq s.list hs.list_lt
  have hview : ({ s with toMemory := m } : Store).view = s.view := by
    unfold view
    rw [hown, h.map_lineAt hs.separate]
  rw [← hview]
  refine becomes_view hs rfl h.free_le h.lists_eq ?_ (fun a ha _ => h.lines_eq a ha) fun r hr => h.regions_eq r hr.1
  intro a ha
  have hline : m.lines a = s.lines a := h.lines_eq a (hs.separate.lt a ha)
  simp only [hline, and_self]

theorem becomes_nextRegion (hs : s.Separated) (next : Int) :
    Becomes s { s with nextRegion := next } { s.view with nextRegion := next } :=
  becomes_view hs rfl (Nat.le_refl _) (fun _ _ => rfl) (fun _ _ => ⟨rfl, rfl⟩) (fun _ _ _ => rfl) fun _ _ => rfl

/-- Puts a line into the list of the buffer. -/
def putLine (isBefore : Bool) (n : Int) (new : Nat) (s : Store) : Store :=
  { s with
    lists := Function.update s.lists s.list
      (insertBeside (fun a => (s.lines a).number) isBefore n new s.own) }

/-- The covered lines of the buffer get the regions of a list. -/
def markLines (covered : Int → Bool) (source : Nat) (s : Store) : Store :=
  { s with toMemory := s.own.foldl (Memory.markLine covered source) s.toMemory }

/-- Ends every line of the buffer with a line feed. -/
def closeLines (s : Store) : Store := { s with toMemory := s.own.foldl Memory.closeLine s.toMemory }

theorem own_putLine (s : Store) (isBefore : Bool) (n : Int) (new : Nat) :
    (s.putLine isBefore n new).own = insertBeside (fun a => (s.lines a).number) isBefore n new s.own :=
  update_self ..

theorem mem_own_putLine {isBefore : Bool} {n : Int} {new a : Nat}
    (ha : a ∈ (s.putLine isBefore n new).own) : a = new ∨ a ∈ s.own := by
  rw [own_putLine] at ha
  rcases Memory.insertBeside_eq_or_perm _ isBefore n new s.own with heq | hperm
  · exact .inr (heq ▸ ha)
  · exact mem_cons.1 (hperm.mem_iff.1 ha)

theorem Becomes.putLine {s₁ : Store} {b : SourceBuffer} (h : Becomes s s₁ b) (isBefore : Bool) (n : Int) {new : Nat}
    (hnew : s₁.toMemory.Separate (new :: s₁.own)) (hnumber : (s₁.lines new).number = none)
    (hbase : s.free ≤ new) : Becomes s (s₁.putLine isBefore n new)
      { b with lines := insertBeside (·.number) isBefore n (s₁.lineAt new) b.lines } := by
  have hown := s₁.own_putLine isBefore n new
  constructor
  · constructor
    · exact h.separated.list_lt
    · rw [hown]
      rcases Memory.insertBeside_eq_or_perm _ isBefore n new s₁.own with heq | hperm
      · rw [heq]
        exact h.separated.separate.of_regions (Nat.le_refl _) fun _ _ => rfl
      · constructor
        · exact fun a ha => hnew.lt a (hperm.mem_iff.1 ha)
        · exact fun a ha => hnew.regions_lt a (hperm.mem_iff.1 ha)
        · exact hperm.nodup_iff.2 hnew.nodup
        · exact (hperm.map _).nodup_iff.2 hnew.regions_nodup
  · have hlineAt : (s₁.putLine isBefore n new).lineAt = s₁.lineAt := rfl
    have hlines : ∀ a, (s₁.lineAt a).number = (s₁.lines a).number := fun _ => rfl
    rw [← h.view_eq]
    unfold view
    rw [hown, hlineAt, map_insertBeside hlines]
    rfl
  · constructor
    · exact h.keeps.free_le
    · intro a ha hne
      obtain ⟨hlists, hne'⟩ := h.keeps.lists_eq a ha hne
      exact ⟨(update_of_ne hne' ..).trans hlists, hne'⟩
    · intro a ha hne
      obtain ⟨hlines, hne'⟩ := h.keeps.lines_eq a ha hne
      refine ⟨hlines, ?_⟩
      intro hin
      rcases mem_own_putLine hin with rfl | hin
      · omega
      · exact hne' hin
    · intro r hr
      obtain ⟨hregions, hfixed⟩ := h.keeps.regions_eq r hr
      refine ⟨hregions, hfixed.1, ?_⟩
      intro a ha hn
      rcases mem_own_putLine ha with rfl | hin
      · exact absurd hnumber hn
      · exact hfixed.2 a hin hn

theorem becomes_of_changes (hs : s.Separated) {source : Nat}
    {f : List Int → SourceLine → SourceLine} (h : s.toMemory.Changes source f s.own m) :
    Becomes s { s with toMemory := m } { s.view with lines := s.view.lines.map (f (s.regions source)) } := by
  have hown : ({ s with toMemory := m } : Store).own = s.own := congrFun h.lists_eq s.list
  have hview : ({ s with toMemory := m } : Store).view =
      { s.view with lines := s.view.lines.map (f (s.regions source)) } := by
    unfold view
    rw [hown, map_map]
    congr 1
    exact map_congr_left h.lineAt_eq
  rw [← hview]
  exact becomes_view hs rfl (Nat.le_of_eq h.free_eq.symm) (fun a _ => congrFun h.lists_eq a) (fun a _ => h.same a)
    (fun a _ hne => h.lines_eq a hne) fun r hr => h.regions_eq r hr.2

theorem becomes_markLines (hs : s.Separated) (covered : Int → Bool) {source : Nat}
    (hsource : s.Fixed source) : Becomes s (s.markLines covered source)
      { s.view with
        lines := s.view.lines.map fun l => if l.number.any covered then l.join (s.regions source) else l } :=
  becomes_of_changes hs (Memory.changes_foldl (Memory.changes_markLine covered source)
    hs.separate.regions_nodup hsource.2)

theorem becomes_closeLines (hs : s.Separated) : Becomes s s.closeLines s.view.close := by
  -- no line has its regions at the free address
  refine becomes_of_changes hs (Memory.changes_foldl (Memory.changes_closeLine s.free)
    hs.separate.regions_nodup fun a ha _ => ?_)
  exact Nat.ne_of_lt (hs.separate.regions_lt a ha)

/-! ## Going back -/

def saved (s : Store) : Nat × Store :=
  let (list, m) := s.toMemory.copyList s.list
  (list, { s with toMemory := m })

def back (s : Store) (list : Nat) (s' : Store) : Store :=
  { s' with list, file := s.file, length := s.length, nextRegion := s.nextRegion }

section

variable (hs : s.Separated)
include hs

theorem Keeps.copied
    (hcopied : s.toMemory.Copied s.own bs m) (hkeeps : Keeps { s with toMemory := (m.newList bs).2 } s') :
    s'.lists m.free = bs ∧ (∀ b ∈ bs, s'.lines b = m.lines b) ∧
      ∀ b ∈ bs, s'.regions (m.lines b).regions = m.regions (m.lines b).regions := by
  have hext : s.toMemory.Extends (m.newList bs).2 := hcopied.ext.trans (.newList bs m)
  have hle := hcopied.ext.free_le
  have hlt := hs.list_lt
  have hfree : m.free < (m.newList bs).2.free := Nat.lt_succ_self _
  have hown : ({ s with toMemory := (m.newList bs).2 } : Store).own = s.own := hext.lists_eq s.list hs.list_lt
  refine ⟨?_, ?_, ?_⟩
  · have hkept := hkeeps.lists_eq m.free hfree (by simp only; omega)
    exact hkept.1.trans (update_self ..)
  · intro b hb
    have hnew := (hcopied.since b hb).1
    refine (hkeeps.lines_eq b (Nat.lt_trans (hcopied.separate.lt b hb) hfree) ?_).1
    rw [hown]
    intro hin
    have hold := hs.separate.lt b hin
    omega
  · intro b hb
    have hnew := (hcopied.since b hb).2
    refine (hkeeps.regions_eq _ ⟨Nat.lt_trans (hcopied.separate.regions_lt b hb) hfree, ?_⟩).1
    rw [hown]
    intro a ha _ heq
    have hold := hs.separate.regions_lt a ha
    have hsame : (m.newList bs).2.lines a = s.lines a := hext.lines_eq a (hs.separate.lt a ha)
    simp only [hsame] at heq
    omega

theorem becomes_of_copied
    (hcopied : s.toMemory.Copied s.own bs m) (hkeeps : Keeps { s with toMemory := (m.newList bs).2 } s') :
    Becomes s
      { s' with list := m.free, file := s.file, length := s.length, nextRegion := s.nextRegion }
      s.view := by
  obtain ⟨hlist, hlines, hregions⟩ := hkeeps.copied hs hcopied
  have hfirst := becomes_of_extends hs (hcopied.ext.trans (.newList bs m))
  have hle := hcopied.ext.free_le
  have hfree : m.free < s'.free := Nat.lt_of_lt_of_le (Nat.lt_succ_self _) hkeeps.free_le
  constructor
  · constructor
    · exact hfree
    · rw [own, hlist]
      exact hcopied.separate.of_regions (Nat.le_of_lt hfree) fun b hb => by rw [hlines b hb]
  · unfold view
    rw [own, hlist, ← hcopied.map_lineAt]
    congr 1
    apply map_congr_left
    intro b hb
    unfold Memory.lineAt
    rw [hlines b hb, hregions b hb]
  · have hkeeps' := hfirst.keeps.trans hkeeps
    -- the copy is newer than all that was there before it
    constructor
    · exact hkeeps'.free_le
    · intro a ha hne
      refine ⟨(hkeeps'.lists_eq a ha hne).1, ?_⟩
      simp only
      omega
    · intro a ha hne
      refine ⟨(hkeeps'.lines_eq a ha hne).1, ?_⟩
      rw [own, hlist]
      intro hin
      have hnew := (hcopied.since a hin).1
      omega
    · intro r hr
      obtain ⟨hsame, hfixed⟩ := hkeeps'.regions_eq r hr
      refine ⟨hsame, hfixed.1, ?_⟩
      rw [own, hlist]
      intro b hb _ heq
      have hnew := (hcopied.since b hb).2
      have hold := hr.1
      simp only [hlines b hb] at heq
      omega

theorem Separated.copied :
    s.toMemory.Copied s.own (s.toMemory.copyLines s.own).1 (s.toMemory.copyLines s.own).2 :=
  Memory.copied_copyLines fun a ha => ⟨hs.separate.lt a ha, hs.separate.regions_lt a ha⟩

theorem becomes_saved : s.toMemory.Extends s.saved.2.toMemory ∧ s.Becomes s.saved.2 s.view := by
  have hext : s.toMemory.Extends s.saved.2.toMemory := hs.copied.ext.trans (.newList _ _)
  exact ⟨hext, becomes_of_extends hs hext⟩

/-! ## Stores for buffers -/

end

/-- The objects of a buffer, with a further list of regions behind those of the lines. -/
def ofBuffer (b : SourceBuffer) (regions : List Int) : Store where
  lists _ := List.range b.lines.length
  lines a :=
    let l := b.lines.getD a default
    { number := l.number, content := l.content, owned := l.owned, regions := a, parent := l.parent }
  regions a := if a = b.lines.length then regions else (b.lines.getD a default).regions
  free := b.lines.length + 1
  file := b.file
  list := 0
  length := b.length
  nextRegion := b.nextRegion

variable (regions : List Int)

theorem separated_ofBuffer : (ofBuffer b regions).Separated := by
  have hregions : (range b.lines.length).map (fun a => ((ofBuffer b regions).lines a).regions) =
      range b.lines.length := map_id'' (fun _ => rfl) _
  have hlt : ∀ a ∈ range b.lines.length, a < b.lines.length + 1 := fun a ha => Nat.lt_succ_of_lt (mem_range.1 ha)
  exact ⟨Nat.succ_pos _, hlt, hlt, nodup_range, hregions ▸ nodup_range⟩

theorem view_ofBuffer : (ofBuffer b regions).view = b := by
  have hlines : (range b.lines.length).map (ofBuffer b regions).lineAt = b.lines := by
    apply ext_getElem
    · simp
    · intro i hi hi'
      have hne : i ≠ b.lines.length := Nat.ne_of_lt hi'
      simp [ofBuffer, Memory.lineAt, hne, hi']
  exact congrArg (fun ls => { b with lines := ls }) hlines

theorem regions_ofBuffer : (ofBuffer b regions).regions b.lines.length = regions := if_pos rfl

end Store

end ParallelPatterns.InPlace
