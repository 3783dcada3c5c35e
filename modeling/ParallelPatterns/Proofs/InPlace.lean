import ParallelPatterns.Proofs.LineObjects

/-!
# Insertions in place

The insertion of a directive on lines that are objects: each line is put into the list of the
buffer, the lines that it covers get its regions in place, and the children are inserted by the same
routine. Every call keeps a copy of the lines first, and takes it for the lines of the buffer if it
is rejected. `run_add_and_addAll` shows that this agrees with the insertion into a buffer, where
nothing is shared. So a directive that is rejected leaves nothing behind (`insert_all_or_nothing`).
-/

namespace ParallelPatterns.InPlace

open Store

/-! ## Insertions -/

/-- Insertions on objects. What was done before an insertion fails remains done. -/
abbrev Writing := ExceptT Failure (StateM Store)

/-- What is kept of a buffer to go back to: a copy of its lines, and its numbers. -/
structure Backup where
  list : Nat
  file : Int
  length : Int
  nextRegion : Int

/-- Keeps a copy of the lines. -/
def save : Writing Backup := do
  let s ← get
  let (list, m) := s.toMemory.copyList s.list
  set { s with toMemory := m }
  return { list, file := s.file, length := s.length, nextRegion := s.nextRegion }

/-- Goes back to what was kept. -/
def restore (k : Backup) : Writing Unit :=
  modify fun s => { s with list := k.list, file := k.file, length := k.length, nextRegion := k.nextRegion }

/-- Takes a new region. -/
def newRegion : Writing Int := do
  let s ← get
  set { s with nextRegion := s.nextRegion + 1 }
  return s.nextRegion

/-- Inserts the line of a directive, with a copy of the regions that it lies in, and marks the lines
that it covers; gives the address of the regions of the line. -/
def addLine (asComment : Bool) (parents : Nat) (text : String) (first last : Int)
    (position : DirectivePosition) (opensRegion : Bool) : Writing Nat := do
  let owned ← if opensRegion then some <$> newRegion else pure none
  let s ← get
  let (regions, m) := s.toMemory.newRegions (s.regions parents ++ owned.toList)
  let content := (if asComment then Directive.commentStart else "") ++ text
  let (line, m) := m.newLine { content, owned, regions, parent := first }
  set { s with toMemory := m }
  let (isBefore, n) ← SourceBuffer.side first last position
  let start := Directive.coveredFrom position first
  modify fun s => (s.putLine isBefore n line).markLines (fun k => start ≤ k && k ≤ last) regions
  return regions

/-- Ends every line with a line feed and gives the text of all lines. -/
def source : Writing String := do
  modify Store.closeLines
  return (← get).view.text

mutual

/-- Inserts a directive with its children, each of which is inserted in the same way without a
check, and goes back if a child or the check rejects it. -/
def add (check : Option (String → Result Bool)) (asComment : Bool) (parents : Nat) : Directive → Writing Bool
  | { text, file, first, last, position, children } => do
    let (first, last, file) ← Directive.lines first last file
    if file != (← get).file then return true
    let k ← save
    let regions ← addLine asComment parents text first last position (!children.isEmpty)
    if !(← addAll asComment regions children) then
      restore k
      return false
    match check with
    | none => return true
    | some check =>
      if ← check (← source) then return true
      restore k
      return false

def addAll (asComment : Bool) (parents : Nat) : List Directive → Writing Bool
  | [] => return true
  | d :: ds => do
    if !(← add none asComment parents d) then return false
    addAll asComment parents ds

end

/-! ## Agreement with insertions into buffers -/

theorem run_addLine {s : Store} (hs : s.Separated) (parents : Nat) (asComment : Bool)
    (text : String) (first last : Int) (position : DirectivePosition) (opensRegion : Bool) :
    let run := (addLine asComment parents text first last position opensRegion).run.run s
    let done := (Editing.addLine asComment (s.regions parents) text first last position opensRegion).run.run s.view
    s.Becomes run.2 done.2 ∧
      match run.1 with
      | .error e => done.1 = .error e
      | .ok r => done.1 = .ok (run.2.regions r) ∧ run.2.Fixed r := by
  let owned := if opensRegion then some s.nextRegion else none
  let s₁ : Store := { s with nextRegion := if opensRegion then s.nextRegion + 1 else s.nextRegion }
  let rs := s.regions parents ++ owned.toList
  let content := (if asComment then Directive.commentStart else "") ++ text
  let line : LineObject := { content, owned, regions := s.free, parent := first }
  let m := ((s.toMemory.newRegions rs).2.newLine line).2
  let s₂ : Store := { s₁ with toMemory := m }
  have hrun : (addLine asComment parents text first last position opensRegion).run.run s =
      match SourceBuffer.side first last position with
      | .error e => (.error e, s₂)
      | .ok (isBefore, n) =>
        let start := Directive.coveredFrom position first
        (.ok s.free, (s₂.putLine isBefore n (s.free + 1)).markLines (fun k => start ≤ k && k ≤ last) s.free) := by
    cases position <;> cases opensRegion <;> rfl
  have hdone : (Editing.addLine asComment (s.regions parents) text first last position opensRegion).run.run s.view =
      match s₁.view.place position first last { content, owned, regions := rs, parent := first } with
      | .error e => (.error e, s₁.view)
      | .ok b => (.ok rs, b.mark (Directive.coveredFrom position first) last rs) := by
    cases position <;> cases opensRegion <;> rfl
  -- the line and its regions are new objects, which do not belong to the buffer before the line is put in
  obtain ⟨hext, hseparate, hline, hregions⟩ :=
    @Memory.newLine_spec s.own s.toMemory hs.separate rs line rfl
  have hnext : s.Becomes s₁ s₁.view := becomes_nextRegion hs _
  have hnew : s.Becomes s₂ s₁.view := hnext.trans (becomes_of_extends hnext.separated hext)
  have hown : s₂.own = s.own := hext.lists_eq s.list hs.list_lt
  have hline' : s₂.lines (s.free + 1) = line := hline
  have hregions' : s₂.regions s.free = rs := hregions
  have hview : s₂.lineAt (s.free + 1) = { content, owned, regions := rs, parent := first } := by
    unfold Memory.lineAt
    rw [hline', ← hregions']
  rw [hrun, hdone, SourceBuffer.place]
  cases SourceBuffer.side first last position with
  | error e => exact ⟨hnew, rfl⟩
  | ok v =>
    obtain ⟨isBefore, n⟩ := v
    have hnumber : (s₂.lines (s.free + 1)).number = none := by rw [hline']
    have hput := hnew.putLine isBefore n (hown ▸ hseparate) hnumber (Nat.le_succ _)
    have hfixed : (s₂.putLine isBefore n (s.free + 1)).Fixed s.free := by
      refine ⟨Nat.lt_succ_of_lt (Nat.lt_succ_self _), ?_⟩
      intro a ha hn
      rcases mem_own_putLine ha with rfl | ha
      · exact absurd hnumber hn
      · have hlt := hs.separate.regions_lt a ha
        have hsame : s₂.lines a = s.lines a := hext.lines_eq a (hs.separate.lt a ha)
        have hsame' : (s₂.putLine isBefore n (s.free + 1)).lines a = s₂.lines a := rfl
        rw [hsame', hsame]
        omega
    have hmark := becomes_markLines hput.separated
      (fun k => Directive.coveredFrom position first ≤ k && k ≤ last) hfixed
    have hrs : (s₂.putLine isBefore n (s.free + 1)).regions s.free = rs := hregions'
    obtain ⟨hsame, hstill⟩ := hmark.keeps.regions_eq s.free hfixed
    have hall := hput.trans hmark
    rw [hput.view_eq, hview, hrs] at hall
    rw [hrs] at hsame
    refine ⟨?_, ?_, hstill⟩
    · exact hall
    · exact congrArg Except.ok hsame.symm

/-- What a check makes of objects that have been changed: if it rejects them, the copies of the
lines are taken back. -/
def Store.checked (s s₁ : Store) : Option (String → Result Bool) → Result Bool × Store
  | none => (.ok true, s₁)
  | some check =>
    match check s₁.closeLines.view.text with
    | .error e => (.error e, s₁.closeLines)
    | .ok true => (.ok true, s₁.closeLines)
    | .ok false => (.ok false, s.back s.saved.1 s₁.closeLines)

theorem run_add_eq (check : Option (String → Result Bool)) (asComment : Bool) (parents : Nat)
    (d : Directive) (s : Store) :
    (add check asComment parents d).run.run s =
      match Directive.lines d.first d.last d.file with
      | .error e => (.error e, s)
      | .ok (first, last, file) =>
        if file != s.file then (.ok true, s)
        else
          match (addLine asComment parents d.text first last d.position d.opens).run.run s.saved.2 with
          | (.error e, s₁) => (.error e, s₁)
          | (.ok regions, s₁) =>
            match (addAll asComment regions d.children).run.run s₁ with
            | (.error e, s₂) => (.error e, s₂)
            | (.ok false, s₂) => (.ok false, s.back s.saved.1 s₂)
            | (.ok true, s₂) => s.checked s₂ check := by
  obtain ⟨text, file, first, last, position, children⟩ := d
  simp only [add, Directive.opens]
  cases Directive.lines first last file with
  | error e => rfl
  | ok v =>
    obtain ⟨first, last, file⟩ := v
    rw [run_bind_of_ok (run_lift_of_ok rfl s)]
    simp only
    rw [run_get_bind]
    by_cases hfile : file != s.file
    · rw [if_pos hfile, if_pos hfile]
      rfl
    · rw [if_neg hfile, if_neg hfile]
      have hsave : (ExceptT.run save).run s =
        (.ok ⟨s.saved.1, s.file, s.length, s.nextRegion⟩, s.saved.2) := rfl
      rw [run_bind_of_ok hsave, run_bind]
      rcases (addLine asComment parents text first last position !children.isEmpty).run.run s.saved.2 with
        ⟨_ | regions, s₁⟩
      · rfl
      · simp only
        rw [run_bind]
        rcases (addAll asComment regions children).run.run s₁ with ⟨_ | accepted, s₂⟩
        · rfl
        · cases accepted with
          | false => rfl
          | true =>
            cases check with
            | none => rfl
            | some check =>
              have hsource : (ExceptT.run source).run s₂ = (.ok s₂.closeLines.view.text, s₂.closeLines) := rfl
              simp only [Bool.not_true, Bool.false_eq_true, if_false, Store.checked]
              rw [run_bind_of_ok hsource]
              cases check s₂.closeLines.view.text with
              | error e => rfl
              | ok accepted => cases accepted <;> rfl

theorem agrees_check {s s₁ : Store} {b : SourceBuffer} (hs : s.Separated)
    (hkeeps : Keeps s.saved.2 s₁) (h : s.Becomes s₁ b) (check : Option (String → Result Bool)) :
    let done := Editing.checked check (some s.file) s.view (.ok (), b)
    (s.checked s₁ check).1 = done.1.map Insertion.isKept ∧ s.Becomes (s.checked s₁ check).2 done.2 := by
  cases check with
  | none => exact ⟨rfl, h⟩
  | some check =>
    obtain rfl : s₁.view = b := h.view_eq
    have hclose := becomes_closeLines h.separated
    have hsame : (some s.file != some s.view.file) = false := bne_self_eq_false _
    simp only [Store.checked, hclose.view_eq, Editing.checked, hsame]
    cases check s₁.view.close.text with
    | error e => exact ⟨rfl, h.trans hclose⟩
    | ok accepted =>
      cases accepted with
      | true => exact ⟨rfl, h.trans hclose⟩
      | false => exact ⟨rfl, becomes_of_copied hs hs.copied (hkeeps.trans hclose.keeps)⟩

/-- Objects that are changed in place, with copies of the lines to go back to, show at every end
what the insertion into the buffer leaves. -/
theorem run_add_and_addAll :
    (∀ d : Directive, ∀ check asComment parents s, s.Separated → parents < s.free →
      let run := (add check asComment parents d).run.run s
      let done := (Editing.insert check asComment (s.regions parents) d).run.run s.view
      run.1 = done.1.map Insertion.isKept ∧ s.Becomes run.2 done.2) ∧
    ∀ ds : List Directive, ∀ asComment parents s, s.Separated → s.Fixed parents →
      let run := (addAll asComment parents ds).run.run s
      let done := (Editing.addAll asComment (s.regions parents) ds).run.run s.view
      run.1 = done.1.map (fun _ => true) ∧ s.Becomes run.2 done.2 := by
  refine Directive.induction ?node ?nil ?cons
  case node =>
    intro d ih check asComment parents s hs hparents
    rw [run_add_eq, Editing.run_insert, Editing.run_add_eq]
    cases hlines : Directive.lines d.first d.last d.file with
    | error e => exact ⟨rfl, becomes_nextRegion hs s.nextRegion⟩
    | ok v =>
      obtain ⟨first, last, file⟩ := v
      obtain ⟨-, -, hfile⟩ := Directive.lines_eq_ok_iff.1 hlines
      have hsame : s.view.file = s.file := rfl
      simp only [hfile, hsame]
      by_cases hother : file != s.file
      · have hne : (some file != some s.view.file) := hother
        simp only [if_pos hother]
        cases check with
        | none => exact ⟨rfl, becomes_nextRegion hs s.nextRegion⟩
        | some check =>
          rw [Editing.checked, if_pos hne]
          exact ⟨rfl, becomes_nextRegion hs s.nextRegion⟩
      · obtain rfl : file = s.file := by simpa using hother
        simp only [if_neg hother]
        obtain ⟨hext, hsaved⟩ := becomes_saved hs
        obtain ⟨hfirst, hanswer⟩ :=
          run_addLine hsaved.separated parents asComment d.text first last d.position d.opens
        rw [hext.regions_eq parents hparents, hsaved.view_eq] at hfirst hanswer
        generalize (addLine asComment parents d.text first last d.position d.opens).run.run s.saved.2 = run
          at hfirst hanswer ⊢
        generalize (Editing.addLine asComment (s.regions parents) d.text first last d.position d.opens).run.run
          s.view = done at hfirst hanswer ⊢
        obtain ⟨r, s₁⟩ := run
        obtain ⟨q, b₁⟩ := done
        cases r with
        | error e =>
          obtain rfl : q = .error e := hanswer
          exact ⟨rfl, hsaved.trans hfirst⟩
        | ok regions =>
          obtain ⟨hq, hfixed⟩ := hanswer
          obtain rfl : q = .ok (s₁.regions regions) := hq
          obtain rfl : s₁.view = b₁ := hfirst.view_eq
          obtain ⟨hall, hrest⟩ := ih asComment regions s₁ hfirst.separated hfixed
          simp only
          generalize (addAll asComment regions d.children).run.run s₁ = run at hall hrest ⊢
          generalize (Editing.addAll asComment (s₁.regions regions) d.children).run.run s₁.view = done
            at hall hrest ⊢
          obtain ⟨r, s₂⟩ := run
          obtain ⟨q, b₂⟩ := done
          -- the copy was made before the line and the children, which have left it
          have hkeeps : Keeps s.saved.2 s₂ := hfirst.keeps.trans hrest.keeps
          have hbecomes : s.Becomes s₂ b₂ := hsaved.trans (hfirst.trans hrest)
          cases q with
          | error e =>
            obtain rfl : r = .error e := hall
            exact ⟨rfl, hbecomes⟩
          | ok _ =>
            obtain rfl : r = .ok true := hall
            exact agrees_check hs hkeeps hbecomes check
  case nil =>
    intro asComment parents s hs hparents
    exact ⟨rfl, becomes_nextRegion hs s.nextRegion⟩
  case cons =>
    intro d ds ihd ihds asComment parents s hs hparents
    obtain ⟨hfirst, hbecomes⟩ := ihd none asComment parents s hs hparents.1
    rw [Editing.run_insert] at hfirst hbecomes
    unfold addAll Editing.addAll
    cases hrun : (add none asComment parents d).run.run s with
    | mk r s₁ =>
      cases hdone : (Editing.add asComment (s.regions parents) d).run.run s.view with
      | mk q b₁ =>
        rw [hrun, hdone] at hfirst hbecomes
        cases q with
        | error e =>
          obtain rfl : r = .error e := hfirst
          rw [run_bind_of_error hrun, run_bind_of_error hdone]
          exact ⟨rfl, hbecomes⟩
        | ok _ =>
          obtain rfl : r = .ok true := hfirst
          obtain rfl : s₁.view = b₁ := hbecomes.view_eq
          -- the regions of the parent are those of an inserted line, so the first child has left them
          obtain ⟨hsame, hfixed⟩ := hbecomes.keeps.regions_eq parents hparents
          obtain ⟨hrest, hbecomes'⟩ := ihds asComment parents s₁ hbecomes.separated hfixed
          rw [show s₁.regions parents = s.regions parents from hsame] at hrest hbecomes'
          rw [run_bind_of_ok hrun, run_bind_of_ok hdone]
          exact ⟨hrest, hbecomes.trans hbecomes'⟩

/-- An insertion is all or nothing. It is undone exactly if it comes to its end and the check
rejects what it has made; then the buffer is as it was. If it stays, the buffer has all lines of the
insertion. The insertion in place ends in the same way from any objects that show the buffer and
share nothing, and shows the same buffer behind it; there are such objects for every buffer. -/
theorem insert_all_or_nothing (q : Request) (b : SourceBuffer) :
    let c := q.course b.file b.nextRegion
    let done := q.insertion.run.run b
    ((∃ tried, done.1 = .ok (.undone tried)) ↔
        ∃ f, q.check = some f ∧ q.directive.file = some b.file ∧ c.result = .ok () ∧
          f (b.grow c).close.text = .ok false) ∧
      (∀ tried, done.1 = .ok (.undone tried) → done.2 = b ∧ tried = (b.grow c).close) ∧
      (done.1 = .ok .kept → c.result = .ok () ∧ done.2.close = (b.grow c).close) ∧
      (∀ (s : Store) (a : Nat), s.Separated → s.view = b → a < s.free → s.regions a = q.parents →
        let run := (add q.check q.asComment a q.directive).run.run s
        run.1 = done.1.map Insertion.isKept ∧ run.2.view = done.2 ∧ run.2.Separated) ∧
      ∃ (s : Store) (a : Nat), s.Separated ∧ s.view = b ∧ a < s.free ∧ s.regions a = q.parents := by
  refine ⟨⟨?rejected, ?undone_of_rejected⟩, ?undone, ?kept, ?objects, ?some⟩
  case rejected =>
    rintro ⟨tried, h⟩
    have hends := Editing.ends_insertion q b
    generalize q.insertion.run.run b = done at h hends
    cases hends with
    | undone hresult hcheck hfile hrejects => exact ⟨_, hcheck, hfile, hresult, hrejects⟩
    | _ => cases h
  case undone_of_rejected =>
    rintro ⟨f, hcheck, hfile, hresult, hrejects⟩
    unfold Request.course at hresult hrejects
    unfold Request.insertion
    rw [Editing.run_insert, Editing.run_add_and_addAll.1]
    simp only [Editing.checked, hresult, hcheck, hfile, hrejects, bne_self_eq_false]
    exact ⟨_, rfl⟩
  case undone =>
    intro tried h
    have hends := Editing.ends_insertion q b
    generalize q.insertion.run.run b = done at h hends ⊢
    cases hends with
    | undone =>
      cases h
      exact ⟨rfl, rfl⟩
    | _ => cases h
  case kept =>
    intro h
    have hends := Editing.ends_insertion q b
    generalize q.insertion.run.run b = done at h hends ⊢
    cases hends with
    | kept hresult _ hclose => exact ⟨hresult, hclose⟩
    | _ => cases h
  case objects =>
    intro s a hs hview ha hregions
    obtain ⟨hanswer, hbecomes⟩ := run_add_and_addAll.1 q.directive q.check q.asComment a s hs ha
    rw [hview, hregions] at hanswer hbecomes
    exact ⟨hanswer, hbecomes.view_eq, hbecomes.separated⟩
  case some =>
    refine ⟨ofBuffer b q.parents, b.lines.length, separated_ofBuffer b q.parents,
      view_ofBuffer b q.parents, ?_, regions_ofBuffer b q.parents⟩
    exact Nat.lt_succ_self _

/-- A directive with a child that is rejected at its end: the last line, which had no line feed, has
none again. -/
theorem insert_all_or_nothing_rejected :
    let inner : Directive := { text := "inner", file := some 1, first := some 2, last := some 2 }
    let outer : Directive :=
      { text := "outer", file := some 1, first := some 1, last := some 2, children := [inner] }
    let q : Request := { directive := outer, check := some fun _ => .ok false, parents := [7] }
    let b := SourceBuffer.ofText 1 "a\nb"
    let run := (add q.check q.asComment b.lines.length q.directive).run.run (ofBuffer b q.parents)
    (∃ tried, (q.insertion.run.run b).1 = .ok (.undone tried) ∧ tried.text = "outer\na\ninner\nb\n") ∧
      run.1 = .ok false ∧ run.2.view = b := by
  intro inner outer q b run
  obtain ⟨hiff, hundone, -, hobjects, -⟩ := insert_all_or_nothing q b
  have hresult : (q.course b.file b.nextRegion).result = .ok () := by decide
  have htext : (b.grow (q.course b.file b.nextRegion)).close.text = "outer\na\ninner\nb\n" := by decide
  obtain ⟨tried, htried⟩ := hiff.2 ⟨_, rfl, rfl, hresult, rfl⟩
  obtain ⟨hsame, rfl⟩ := hundone tried htried
  obtain ⟨haccepted, hview, -⟩ := hobjects (ofBuffer b q.parents) b.lines.length (separated_ofBuffer b q.parents)
    (view_ofBuffer b q.parents) (Nat.lt_succ_self _) (regions_ofBuffer b q.parents)
  rw [htried] at haccepted
  rw [hsame] at hview
  exact ⟨⟨_, htried, htext⟩, haccepted, hview⟩

end ParallelPatterns.InPlace
