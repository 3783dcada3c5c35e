import ParallelPatterns.Directive.SourceBuffer
import ParallelPatterns.Proofs.Computation

/-!
# The course of an insertion

Inserting a directive puts one line after another into a source, and may fail at any directive of
the tree. The course of an insertion lists these lines with their regions, and says how the
insertion ends; it depends on the directive, the file and the next free region only.
`run_add_and_addAll` says what an insertion does to a buffer by its course: the lines of the course
are put in. They stay, unless the check of the new source rejects them (`run_insert`).

`Directive.walk` is the plain side of a course: the directives that an insertion comes to, without
lines and regions. Facts that tie the two together are proved by `course_induction`.
-/

namespace ParallelPatterns

open Directive

/-! ## Where a directive stands -/

namespace DirectivePosition

/-- Is a directive put before a line? -/
def isBefore : DirectivePosition → Bool
  | beforeStart | beforeEnd => true
  | _ => false

/-- Is a directive put behind a line? -/
def isAfter : DirectivePosition → Bool
  | afterStart | afterEnd => true
  | _ => false

/-- The failure at a position that is not supported. -/
def failure? : DirectivePosition → Option Failure
  | unsupported literal => some (.unsupportedDirectivePosition literal)
  | _ => none

end DirectivePosition

namespace Directive

variable (d : Directive)

/-- The number of the line that a directive is put before or behind. -/
def target : Option Int :=
  match d.position with
  | .beforeStart | .afterStart => d.first
  | .beforeEnd | .afterEnd => d.last
  | .unsupported _ => none

/-- Is a directive put before the line with a number? -/
def standsBefore (n : Int) : Bool := d.position.isBefore && d.target == some n

/-- Is a directive put behind the line with a number? -/
def standsAfter (n : Int) : Bool := d.position.isAfter && d.target == some n

/-- Does a directive cover the line with a number? Only one before its first line covers that line
too. -/
def covers (n : Int) : Bool :=
  match d.first, d.last, d.position with
  | some first, some last, .beforeStart => first ≤ n && n ≤ last
  | some first, some last, .afterStart => first + 1 ≤ n && n ≤ last
  | some first, some last, .beforeEnd => first + 1 ≤ n && n ≤ last
  | some first, some last, .afterEnd => first + 1 ≤ n && n ≤ last
  | _, _, _ => false

/-- Does the line of a directive open a region? -/
def opens : Bool := !d.children.isEmpty

end Directive

/-- A directive as it is written into a source: as it is, or as a comment. -/
structure Note where
  directive : Directive
  asComment : Bool := false

namespace Note

/-- The line of a note outside of all regions. -/
def plain (n : Note) : SourceLine :=
  { content := (if n.asComment then Directive.commentStart else "") ++ n.directive.text
    parent := n.directive.first.getD 0 }

def isSupported (n : Note) : Bool := n.directive.position.failure?.isNone

/-- The region that the line of a note opens: the next free one, if the directive has children. -/
def opened (next : Int) (n : Note) : Option Int := if n.directive.opens then some next else none

/-- The line of a note inside of regions. -/
def lineIn (parents : List Int) (next : Int) (n : Note) : SourceLine :=
  { n.plain with owned := n.opened next, regions := parents ++ (n.opened next).toList }

/-- The next free region behind the line of a note. -/
def nextRegion (next : Int) (n : Note) : Int := if n.directive.opens then next + 1 else next

end Note

/-- A note together with the line that stands for it in a source. -/
structure Placement extends Note where
  line : SourceLine

namespace Placement

/-- Puts the line to its place; without a line to stand at it is put nowhere. -/
def put (p : Placement) (ls : List SourceLine) : List SourceLine :=
  match p.directive.target with
  | some n => SourceBuffer.insertBeside (·.number) p.directive.position.isBefore n p.line ls
  | none => ls

/-- A line that the directive covers joins the regions of its line. -/
def mark (p : Placement) (l : SourceLine) : SourceLine :=
  if l.number.any p.directive.covers then l.join p.line.regions else l

/-- Puts the line to its place and marks the lines that the directive covers. -/
def apply (ls : List SourceLine) (p : Placement) : List SourceLine := (p.put ls).map p.mark

end Placement

/-- How an insertion goes: the lines that it puts in, the next free region behind it, and its
end. -/
structure Course where
  placements : List Placement := []
  next : Int
  result : Result Unit := .ok ()

namespace Directive

theorem induction {P : Directive → Prop} {Q : List Directive → Prop} (node : ∀ d, Q d.children → P d)
    (nil : Q []) (cons : ∀ d ds, P d → Q ds → Q (d :: ds)) : (∀ d, P d) ∧ ∀ ds, Q ds :=
  have hd (d : Directive) : P d :=
    @rec P Q (fun _ _ _ _ _ _ h => node _ h) nil (fun d ds => cons d ds) d
  ⟨hd, fun ds => List.rec nil (fun d ds => cons d ds (hd d)) ds⟩

mutual

/-- The course of the insertion of a directive inside of regions. -/
def course (file : Int) (asComment : Bool) (parents : List Int) (next : Int) : Directive → Course
  | d@⟨_, f, first, last, position, children⟩ =>
    match Directive.lines first last f with
    | .error e => { next, result := .error e }
    | .ok (_, _, f) =>
      if f != file then { next }
      else
        let n : Note := ⟨d, asComment⟩
        match position.failure? with
        | some e => { next := n.nextRegion next, result := .error e }
        | none =>
          let line := n.lineIn parents next
          let rest := courseAll file asComment line.regions (n.nextRegion next) children
          { rest with placements := ⟨n, line⟩ :: rest.placements }

def courseAll (file : Int) (asComment : Bool) (parents : List Int) (next : Int) : List Directive → Course
  | [] => { next }
  | d :: ds =>
    let c := course file asComment parents next d
    match c.result with
    | .error _ => c
    | .ok () =>
      let rest := courseAll file asComment parents c.next ds
      { rest with placements := c.placements ++ rest.placements }

end

theorem course_eq (file : Int) (asComment : Bool) (parents : List Int) (next : Int)
    (d : Directive) : d.course file asComment parents next =
      match lines d.first d.last d.file with
      | .error e => { next, result := .error e }
      | .ok (_, _, f) =>
        if f != file then { next }
        else
          let n : Note := ⟨d, asComment⟩
          match d.position.failure? with
          | some e => { next := n.nextRegion next, result := .error e }
          | none =>
            let line := n.lineIn parents next
            let rest := courseAll file asComment line.regions (n.nextRegion next) d.children
            { rest with placements := ⟨n, line⟩ :: rest.placements } := by
  cases d
  rfl

theorem lines_eq_ok_iff {first last file : Option Int} {a b c : Int} :
    lines first last file = .ok (a, b, c) ↔ first = some a ∧ last = some b ∧ file = some c := by
  cases first <;> cases last <;> cases file <;> simp [lines]

end Directive

namespace SourceBuffer

variable (b : SourceBuffer)

/-- The buffer with further lines put in, and the next free region behind them. -/
def extend (ps : List Placement) (next : Int) : SourceBuffer :=
  { b with lines := ps.foldl Placement.apply b.lines, nextRegion := next }

/-- The buffer behind a course. -/
def grow (c : Course) : SourceBuffer := b.extend c.placements c.next

theorem place_eq (n : Note) {first last : Int} (hfirst : n.directive.first = some first)
    (hlast : n.directive.last = some last) (new : SourceLine) (b : SourceBuffer) :
    b.place n.directive.position first last new =
      match n.directive.position.failure? with
      | some e => .error e
      | none => .ok { b with lines := Placement.put ⟨n, new⟩ b.lines } := by
  unfold place Placement.put target
  cases n.directive.position <;> simp only [hfirst, hlast] <;> rfl

theorem mark_eq (n : Note) (hposition : n.directive.position.failure? = none) {first last : Int}
    (hfirst : n.directive.first = some first) (hlast : n.directive.last = some last)
    (new : SourceLine) (b : SourceBuffer) :
    b.mark (coveredFrom n.directive.position first) last new.regions =
      { b with lines := b.lines.map (Placement.mark ⟨n, new⟩) } := by
  have hcovers : (fun k => decide (coveredFrom n.directive.position first ≤ k) && decide (k ≤ last)) =
      n.directive.covers := by
    unfold covers coveredFrom
    rw [hfirst, hlast]
    cases hp : n.directive.position with
    | unsupported literal => simp [hp, DirectivePosition.failure?] at hposition
    | _ => rfl
  rw [mark, hcovers]
  rfl

end SourceBuffer

/-! ## What an insertion does to a buffer -/

namespace Editing

theorem run_addLine (n : Note) (parents : List Int) {first last : Int} (hfirst : n.directive.first = some first)
    (hlast : n.directive.last = some last) (b : SourceBuffer) :
    (addLine n.asComment parents n.directive.text first last n.directive.position n.directive.opens).run.run b =
      match n.directive.position.failure? with
      | some e => (.error e, { b with nextRegion := n.nextRegion b.nextRegion })
      | none =>
        let line := n.lineIn parents b.nextRegion
        (.ok line.regions,
          { b with lines := Placement.apply b.lines ⟨n, line⟩, nextRegion := n.nextRegion b.nextRegion }) := by
  have hrun : (addLine n.asComment parents n.directive.text first last n.directive.position
        n.directive.opens).run.run b =
      let line := n.lineIn parents b.nextRegion
      let b₁ := { b with nextRegion := n.nextRegion b.nextRegion }
      match b₁.place n.directive.position first last line with
      | .error e => (.error e, b₁)
      | .ok b₂ => (.ok line.regions, b₂.mark (coveredFrom n.directive.position first) last line.regions) := by
    unfold Note.lineIn Note.plain Note.opened Note.nextRegion
    rw [hfirst]
    cases n.directive.position <;> cases n.directive.opens <;> rfl
  rw [hrun]
  simp only [SourceBuffer.place_eq n hfirst hlast]
  cases hposition : n.directive.position.failure? with
  | some e => rfl
  | none =>
    simp only
    rw [SourceBuffer.mark_eq n hposition hfirst hlast]
    rfl

variable (asComment : Bool) (parents : List Int)

theorem run_add_eq (d : Directive) (b : SourceBuffer) :
    (add asComment parents d).run.run b =
      match lines d.first d.last d.file with
      | .error e => (.error e, b)
      | .ok (first, last, file) =>
        if file != b.file then (.ok (), b)
        else
          match (addLine asComment parents d.text first last d.position d.opens).run.run b with
          | (.error e, b₁) => (.error e, b₁)
          | (.ok regions, b₁) => (addAll asComment regions d.children).run.run b₁ := by
  obtain ⟨text, file, first, last, position, children⟩ := d
  simp only [add, opens]
  cases lines first last file with
  | error e => rfl
  | ok v =>
    obtain ⟨first, last, file⟩ := v
    rw [run_bind_of_ok (run_lift_of_ok rfl b)]
    simp only
    rw [run_get_bind]
    by_cases hfile : file != b.file
    · rw [if_pos hfile, if_pos hfile]
      rfl
    · rw [if_neg hfile, if_neg hfile, run_bind]
      rcases (addLine asComment parents text first last position !children.isEmpty).run.run b with
        ⟨_ | _, _⟩ <;> rfl

theorem run_add_and_addAll :
    (∀ d : Directive, ∀ asComment parents b, (add asComment parents d).run.run b =
      let c := d.course b.file asComment parents b.nextRegion
      (c.result, b.grow c)) ∧
    ∀ ds : List Directive, ∀ asComment parents b, (addAll asComment parents ds).run.run b =
      let c := courseAll b.file asComment parents b.nextRegion ds
      (c.result, b.grow c) := by
  refine induction ?node ?nil ?cons
  case node =>
    intro d ih asComment parents b
    rw [course_eq, run_add_eq]
    cases hlines : lines d.first d.last d.file with
    | error e => rfl
    | ok v =>
      obtain ⟨first, last, file⟩ := v
      obtain ⟨hfirst, hlast, -⟩ := lines_eq_ok_iff.1 hlines
      simp only
      by_cases hfile : file != b.file
      · rw [if_pos hfile, if_pos hfile]
        rfl
      · rw [if_neg hfile, if_neg hfile]
        have hline := run_addLine ⟨d, asComment⟩ parents hfirst hlast b
        cases hposition : d.position.failure? with
        | some e =>
          -- the region is taken before the position fails
          simp only [hposition] at hline
          rw [hline]
          rfl
        | none =>
          simp only [hposition] at hline
          rw [hline]
          exact ih _ _ _
  case nil =>
    intro asComment parents b
    rfl
  case cons =>
    intro d ds ihd ihds asComment parents b
    have hfirst := ihd asComment parents b
    unfold addAll courseAll
    cases hresult : (d.course b.file asComment parents b.nextRegion).result with
    | error e =>
      simp only [hresult] at hfirst
      rw [run_bind_of_error hfirst]
      simp only [hresult]
    | ok _ =>
      simp only [hresult] at hfirst
      rw [run_bind_of_ok hfirst, ihds]
      simp [SourceBuffer.grow, SourceBuffer.extend, hresult]

/-- What a check makes of an insertion that was tried: if it rejects the new source, the buffer is
as it was. -/
def checked (check : Option (String → Result Bool)) (file : Option Int) (b : SourceBuffer) :
    Result Unit × SourceBuffer → Result Insertion × SourceBuffer
  | (.error e, b₁) => (.error e, b₁)
  | (.ok _, b₁) =>
    match check with
    | none => (.ok .kept, b₁)
    | some check =>
      if file != some b.file then (.ok .kept, b₁)
      else
        match check b₁.close.text with
        | .error e => (.error e, b₁.close)
        | .ok true => (.ok .kept, b₁.close)
        | .ok false => (.ok (.undone b₁.close), b)

theorem run_insert (check : Option (String → Result Bool)) (d : Directive) (b : SourceBuffer) :
    (insert check asComment parents d).run.run b =
      checked check d.file b ((add asComment parents d).run.run b) := by
  unfold insert
  rw [run_get_bind]
  cases hadd : (add asComment parents d).run.run b with
  | mk r b₁ =>
    cases r with
    | error e => exact run_bind_of_error hadd
    | ok _ =>
      rw [run_bind_of_ok hadd]
      cases hlines : lines d.first d.last d.file with
      | error e =>
        -- an insertion that comes to its end has known lines
        rw [run_add_eq, hlines] at hadd
        cases hadd
      | ok v =>
        obtain ⟨first, last, file⟩ := v
        rw [run_bind_of_ok (run_lift_of_ok rfl _), (lines_eq_ok_iff.1 hlines).2.2]
        cases check with
        | none => rfl
        | some check =>
          have hne : (some file != some b.file) = (file != b.file) := rfl
          simp only [checked, hne]
          by_cases hfile : file != b.file
          · rw [if_pos hfile, if_pos hfile]
            rfl
          · rw [if_neg hfile, if_neg hfile]
            have hsource : (ExceptT.run source).run b₁ = (.ok b₁.close.text, b₁.close) := rfl
            rw [run_bind_of_ok hsource]
            cases check b₁.close.text with
            | error e => rfl
            | ok accepted => cases accepted <;> rfl

end Editing

/-! ## Which directives an insertion comes to -/

namespace Directive

mutual

/-- The directives that an insertion into a file comes to, each before its children, and whether it
comes to its end. A directive for another file is passed over with all below it. The insertion ends
at a directive whose lines or file are not known, and at one whose position is not supported. -/
def walk (file : Int) : Directive → List Directive × Bool
  | d@⟨_, f, first, last, position, children⟩ =>
    if first.isNone || last.isNone || f.isNone then ([], false)
    else if f != some file then ([], true)
    else if position.failure?.isSome then ([d], false)
    else
      let (ds, goesOn) := walkAll file children
      (d :: ds, goesOn)

def walkAll (file : Int) : List Directive → List Directive × Bool
  | [] => ([], true)
  | d :: ds =>
    let (xs, goesOn) := walk file d
    if goesOn then
      let (ys, goesOn) := walkAll file ds
      (xs ++ ys, goesOn)
    else (xs, false)

end

/-- The directives that an insertion into a file comes to. -/
def reached (file : Int) (d : Directive) : List Directive := (d.walk file).1

variable (file : Int) (d : Directive)

theorem walk_eq :
    d.walk file =
      if d.first.isNone || d.last.isNone || d.file.isNone then ([], false)
      else if d.file != some file then ([], true)
      else if d.position.failure?.isSome then ([d], false)
      else (d :: (walkAll file d.children).1, (walkAll file d.children).2) := by
  cases d
  rfl

theorem walkAll_cons (ds : List Directive) :
    walkAll file (d :: ds) =
      if (d.walk file).2 then ((d.walk file).1 ++ (walkAll file ds).1, (walkAll file ds).2)
      else ((d.walk file).1, false) := by
  rw [walkAll]

/-- What holds of each way in which an insertion can go on holds of every course, which comes to its
end where the walk does. An insertion fails before anything is done, or passes over a directive; it
fails where a line is to be put in; it puts in a line and goes on with the children; or it goes on
with the next directive. -/
theorem course_induction {file : Int} {asComment : Bool}
    {R : List Int → Int → List Directive × Bool → Course → Prop}
    (failed : ∀ parents next e (d : Directive), lines d.first d.last d.file = .error e →
      R parents next ([], false) { next, result := .error e })
    (passed : ∀ parents next, R parents next ([], true) { next })
    (misplaced : ∀ parents next e (d : Directive), d.position.failure? = some e →
      d.walk file = ([d], false) →
      R parents next ([d], false) { next := Note.nextRegion next ⟨d, asComment⟩, result := .error e })
    (node : ∀ parents next (d : Directive) (w : List Directive × Bool) (c : Course),
      d.position.failure? = none → d.walk file = (d :: w.1, w.2) →
      R (Note.lineIn parents next ⟨d, asComment⟩).regions (Note.nextRegion next ⟨d, asComment⟩) w c →
      R parents next (d :: w.1, w.2)
        { c with placements := ⟨⟨d, asComment⟩, Note.lineIn parents next ⟨d, asComment⟩⟩ :: c.placements })
    (append : ∀ parents next (w w' : List Directive × Bool) (c c' : Course),
      R parents next w c → R parents c.next w' c' →
      R parents next (w.1 ++ w'.1, w'.2) { c' with placements := c.placements ++ c'.placements })
    (d : Directive) (parents : List Int) (next : Int) :
    (d.course file asComment parents next).result.toBool = (d.walk file).2 ∧
      R parents next (d.walk file) (d.course file asComment parents next) := by
  revert d parents next
  refine (induction (Q := fun ds => ∀ parents next,
    (courseAll file asComment parents next ds).result.toBool = (walkAll file ds).2 ∧
      R parents next (walkAll file ds) (courseAll file asComment parents next ds)) ?_ ?_ ?_).1
  · intro d ih parents next
    have hwalk := walk_eq file d
    rw [course_eq]
    cases hlines : lines d.first d.last d.file with
    | error e =>
      have hnone : (d.first.isNone || d.last.isNone || d.file.isNone) := by
        cases hf : d.first <;> cases hl : d.last <;> cases hi : d.file <;> simp_all [lines]
      rw [if_pos hnone] at hwalk
      rw [hwalk]
      exact ⟨rfl, failed parents next e d hlines⟩
    | ok v =>
      obtain ⟨first, last, f⟩ := v
      obtain ⟨hfirst, hlast, hf⟩ := lines_eq_ok_iff.1 hlines
      rw [if_neg (by simp [hfirst, hlast, hf]), hf] at hwalk
      have hne : (some f != some file) = (f != file) := rfl
      rw [hne] at hwalk
      by_cases hfile : f != file
      · rw [if_pos hfile] at hwalk
        simp only [if_pos hfile]
        rw [hwalk]
        exact ⟨rfl, passed parents next⟩
      · rw [if_neg hfile] at hwalk
        simp only [if_neg hfile]
        cases hposition : d.position.failure? with
        | some e =>
          rw [hposition] at hwalk
          rw [hwalk]
          exact ⟨rfl, misplaced parents next e d hposition hwalk⟩
        | none =>
          rw [hposition] at hwalk
          rw [hwalk]
          obtain ⟨hresult, hrest⟩ := ih (Note.lineIn parents next ⟨d, asComment⟩).regions
            (Note.nextRegion next ⟨d, asComment⟩)
          exact ⟨hresult, node parents next d _ _ hposition hwalk hrest⟩
  · intro parents next
    exact ⟨rfl, passed parents next⟩
  · intro d ds ihd ihds parents next
    obtain ⟨hresult, hfirst⟩ := ihd parents next
    rw [walkAll_cons, courseAll]
    cases hc : (d.course file asComment parents next).result with
    | error e =>
      have hends : (d.walk file).2 = false := by
        rw [← hresult, hc]
        rfl
      rw [if_neg (by simp [hends])]
      have hpair : ((d.walk file).1, false) = d.walk file := by rw [← hends]
      rw [hpair]
      exact ⟨hresult, hfirst⟩
    | ok _ =>
      have hgoes : (d.walk file).2 := by
        rw [← hresult, hc]
        rfl
      obtain ⟨hrest, hds⟩ := ihds parents (d.course file asComment parents next).next
      rw [if_pos hgoes]
      exact ⟨hrest, append parents next _ _ _ _ hfirst hds⟩

theorem course_spec (asComment : Bool) (parents : List Int) (next : Int) (d : Directive) :
    (d.course file asComment parents next).result.toBool = (d.walk file).2 ∧
      (d.course file asComment parents next).placements.map (·.toNote) =
        ((d.reached file).map fun e => (⟨e, asComment⟩ : Note)).filter Note.isSupported ∧
      ∀ p ∈ (d.course file asComment parents next).placements, ∃ parents next,
        p.line = p.toNote.lineIn parents next := by
  refine course_induction (R := fun _ _ w c =>
    c.placements.map (·.toNote) = (w.1.map fun e => (⟨e, asComment⟩ : Note)).filter Note.isSupported ∧
      ∀ p ∈ c.placements, ∃ parents next, p.line = p.toNote.lineIn parents next) ?_ ?_ ?_ ?_ ?_ d parents next
  · intro parents next e d hlines
    exact ⟨rfl, nofun⟩
  · intro parents next
    exact ⟨rfl, nofun⟩
  · intro parents next e d hposition hwalk
    exact ⟨by simp [Note.isSupported, hposition], nofun⟩
  · intro parents next d w c hposition hwalk ih
    exact ⟨by simp [Note.isSupported, hposition, ih.1], List.forall_mem_cons.2 ⟨⟨parents, next, rfl⟩, ih.2⟩⟩
  · intro parents next w w' c c' ih ih'
    exact ⟨by rw [List.map_append, ih.1, ih'.1, List.map_append, List.filter_append],
      List.forall_mem_append.2 ⟨ih.2, ih'.2⟩⟩

end Directive

end ParallelPatterns
