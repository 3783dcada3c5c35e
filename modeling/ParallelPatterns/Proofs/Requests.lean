import ParallelPatterns.Proofs.Insertion

/-!
# Requests one after another

A buffer answers requests to insert directives one after another; a request can be undone, it can
fail, or its lines stay. Up to the line feeds at the ends of lines, the buffer behind the requests
is the first buffer with the lines of those that have not been undone (`close_perform`). For that,
putting in lines and ending lines by line feeds are shown to commute.
-/

namespace ParallelPatterns

open List SourceLine SourceBuffer

/-! ## Line feeds at the ends of lines -/

namespace Text

theorem ends_append (pat s : String) : ends pat (s ++ pat) := by
  unfold ends
  rw [isSuffixOf_iff_suffix, String.toList_append]
  exact suffix_append _ _

end Text

namespace SourceLine

variable (l : SourceLine)

@[simp]
theorem closed_number : l.closed.number = l.number := by
  unfold closed
  split <;> rfl

@[simp]
theorem closed_owned : l.closed.owned = l.owned := by
  unfold closed
  split <;> rfl

@[simp]
theorem closed_regions : l.closed.regions = l.regions := by
  unfold closed
  split <;> rfl

theorem ends_closed : Text.ends "\n" l.closed.content := by
  unfold closed
  split
  · assumption
  · exact Text.ends_append "\n" l.content

theorem closed_closed : l.closed.closed = l.closed := by
  have hends := l.ends_closed
  rw [closed, if_pos hends]

theorem closed_join (regions : List Int) : (l.join regions).closed = l.closed.join regions := by
  unfold closed join
  split <;> rfl

end SourceLine

namespace SourceBuffer

theorem map_insertBeside {α β : Type} {number : α → Option Int} {number' : β → Option Int} {g : α → β}
    (hg : ∀ l, number' (g l) = number l) (isBefore : Bool) (n : Int) (new : α) (ls : List α) :
    (insertBeside number isBefore n new ls).map g = insertBeside number' isBefore n (g new) (ls.map g) := by
  induction ls with
  | nil => rfl
  | cons l ls ih =>
    simp only [insertBeside, map_cons, hg]
    split
    · cases isBefore <;> rfl
    · rw [map_cons, ih]

end SourceBuffer

namespace Placement

variable (p : Placement) (ls : List SourceLine)

def closed : Placement := { p with line := p.line.closed }

theorem closed_mark (l : SourceLine) : (p.mark l).closed = p.closed.mark l.closed := by
  have hregions : p.closed.line.regions = p.line.regions := p.line.closed_regions
  have hdirective : p.closed.directive = p.directive := rfl
  unfold mark
  rw [closed_number, hregions, hdirective]
  split
  · exact closed_join l _
  · rfl

theorem map_closed_apply : (apply ls p).map SourceLine.closed = apply (ls.map SourceLine.closed) p.closed := by
  have hput : (p.put ls).map SourceLine.closed = p.closed.put (ls.map SourceLine.closed) := by
    have hdirective : p.closed.directive = p.directive := rfl
    unfold put
    rw [hdirective]
    cases p.directive.target with
    | none => rfl
    | some n => exact map_insertBeside closed_number _ n p.line ls
  unfold apply
  rw [← hput, map_map, map_map]
  apply map_congr_left
  intro l _
  exact p.closed_mark l

theorem map_closed_foldl_apply (ps : List Placement) (ls : List SourceLine) :
    (ps.foldl apply ls).map SourceLine.closed = (ps.map closed).foldl apply (ls.map SourceLine.closed) := by
  rw [foldl_map]
  exact (foldl_hom (map _) fun ls p => (map_closed_apply p ls).symm).symm

end Placement

namespace SourceBuffer

theorem close_close (b : SourceBuffer) : b.close.close = b.close := by
  have hclosed : closed ∘ closed = closed := by
    funext l
    rw [Function.comp_apply, closed_closed]
  simp only [close, map_map, hclosed]

theorem close_extend (b : SourceBuffer) (ps : List Placement) (next : Int) :
    (b.extend ps next).close = b.close.extend (ps.map Placement.closed) next := by
  unfold close extend
  simp only [Placement.map_closed_foldl_apply]

end SourceBuffer

/-! ## Requests one after another -/

/-- A request to insert a directive: with a check or without, as it is or as a comment, inside of
regions. -/
structure Request extends Note where
  check : Option (String → Result Bool) := none
  parents : List Int := []

/-- Has an insertion been undone? One that has failed has not. -/
def wasUndone : Result Insertion → Bool
  | .ok i => !i.isKept
  | .error _ => false

namespace Request

variable (file : Int) (q : Request)

/-- The insertion that is asked for. -/
def insertion : Editing Insertion := Editing.insert q.check q.asComment q.parents q.directive

/-- The course of the insertion that is asked for. -/
def course (file : Int) (next : Int) (q : Request) : Course :=
  q.directive.course file q.asComment q.parents next

/-- The notes of the directives that the insertion comes to. -/
def notes (file : Int) (q : Request) : List Note := (q.directive.reached file).map fun d => ⟨d, q.asComment⟩

/-- Is this the answer of the check of a request to a source? Without a check, and for another file,
none is asked and the insertion stays. -/
def Answers (file : Int) (source : String) (q : Request) (accepted : Bool) : Prop :=
  match q.check with
  | none => accepted
  | some check => if q.directive.file = some file then check source = .ok accepted else accepted

/-- The buffer with the lines that are asked for. -/
abbrev made (q : Request) (b : SourceBuffer) : SourceBuffer := b.grow (q.course b.file b.nextRegion)

/-- How a request can end, with the buffer behind it: it has failed, its lines stay, or the check
has rejected them. -/
inductive Ends (q : Request) (b : SourceBuffer) : Result Insertion × SourceBuffer → Prop
  | failed (e : Failure) {b' : SourceBuffer} (hclose : b'.close = (q.made b).close) : Ends q b (.error e, b')
  | kept {b' : SourceBuffer} (hresult : (q.course b.file b.nextRegion).result = .ok ())
      (hanswer : q.Answers b.file (q.made b).close.text true) (hclose : b'.close = (q.made b).close) :
      Ends q b (.ok .kept, b')
  | undone {check : String → Result Bool} (hresult : (q.course b.file b.nextRegion).result = .ok ())
      (hcheck : q.check = some check) (hfile : q.directive.file = some b.file)
      (hrejects : check (q.made b).close.text = .ok false) :
      Ends q b (.ok (.undone (q.made b).close), b)

/-- The requests whose insertions have not been undone. -/
def lasting (qs : List Request) (answers : List (Result Insertion)) : List Request :=
  ((qs.zip answers).filter fun e => !wasUndone e.2).map (·.1)

/-- The lines that requests put in, and the next free region behind them. -/
def placements (file : Int) (next : Int) : List Request → List Placement × Int
  | [] => ([], next)
  | q :: qs =>
    let c := q.course file next
    let (ps, next) := placements file c.next qs
    (c.placements ++ ps, next)

variable (next : Int) (qs : List Request)

theorem lasting_cons (a : Result Insertion) (answers : List (Result Insertion)) :
    lasting (q :: qs) (a :: answers) = if wasUndone a then lasting qs answers else q :: lasting qs answers := by
  unfold lasting
  cases h : wasUndone a <;> simp [h]

theorem lasting_of_kept {qs : List Request} {answers : List (Result Insertion)}
    (hlength : answers.length = qs.length) (h : ∀ a ∈ answers, a = .ok .kept) : lasting qs answers = qs := by
  induction qs generalizing answers with
  | nil => rfl
  | cons q qs ih =>
    cases answers with
    | nil => cases hlength
    | cons a answers =>
      have ha : wasUndone a = false := by
        rw [h a (by simp)]
        rfl
      rw [lasting_cons, if_neg (by simp [ha]), ih (Nat.succ.inj hlength) fun b hb => h b (by simp [hb])]

theorem lasting_append {qs qs' : List Request} {answers answers' : List (Result Insertion)}
    (hlength : answers.length = qs.length) :
    lasting (qs ++ qs') (answers ++ answers') = lasting qs answers ++ lasting qs' answers' := by
  unfold lasting
  rw [zip_append hlength.symm, filter_append, map_append]

theorem map_toNote_placements :
    (placements file next qs).1.map (·.toNote) = (qs.flatMap (notes file)).filter Note.isSupported := by
  induction qs generalizing next with
  | nil => rfl
  | cons q qs ih =>
    rw [placements, map_append, ih, flatMap_cons, filter_append]
    exact congrArg (· ++ _) (Directive.course_spec file q.asComment q.parents next q.directive).2.1

theorem exists_lineIn_of_mem_placements {file : Int} {next : Int} {qs : List Request} {p : Placement}
    (hp : p ∈ (placements file next qs).1) : ∃ parents next, p.line = p.toNote.lineIn parents next := by
  induction qs generalizing next with
  | nil => cases hp
  | cons q qs ih =>
    rcases mem_append.1 hp with hp | hp
    · exact (Directive.course_spec file q.asComment q.parents next q.directive).2.2 p hp
    · exact ih hp

end Request

namespace Editing

/-- Answers requests one after another. -/
def perform : List Request → SourceBuffer → List (Result Insertion) × SourceBuffer
  | [], b => ([], b)
  | q :: qs, b =>
    let (answer, b) := q.insertion.run.run b
    let (answers, b) := perform qs b
    (answer :: answers, b)

variable (q : Request) (qs : List Request) (b : SourceBuffer)

theorem perform_cons :
    perform (q :: qs) b =
      ((q.insertion.run.run b).1 :: (perform qs (q.insertion.run.run b).2).1,
        (perform qs (q.insertion.run.run b).2).2) := rfl

theorem length_perform : (perform qs b).1.length = qs.length := by
  induction qs generalizing b with
  | nil => rfl
  | cons q qs ih => rw [perform_cons, length_cons, length_cons, ih]

theorem perform_append (qs' : List Request) (b : SourceBuffer) :
    perform (qs ++ qs') b =
      ((perform qs b).1 ++ (perform qs' (perform qs b).2).1, (perform qs' (perform qs b).2).2) := by
  induction qs generalizing b with
  | nil => rfl
  | cons q qs ih => rw [cons_append, perform_cons, perform_cons, ih, cons_append]

theorem ends_insertion : q.Ends b (q.insertion.run.run b) := by
  unfold Request.insertion
  rw [run_insert, run_add_and_addAll.1]
  change q.Ends b (checked _ _ _ ((q.course b.file b.nextRegion).result, q.made b))
  cases hresult : (q.course b.file b.nextRegion).result with
  | error e => exact .failed e rfl
  | ok _ =>
    cases hcheck : q.check with
    | none => exact .kept hresult (by simp [Request.Answers, hcheck]) rfl
    | some check =>
      by_cases hfile : q.directive.file = some b.file
      · simp only [checked, hfile, bne_self_eq_false]
        cases hanswer : check (q.made b).close.text with
        | error e => exact .failed e (close_close _)
        | ok accepted =>
          cases accepted with
          | true => exact .kept hresult (by simp [Request.Answers, hcheck, hanswer]) (close_close _)
          | false => exact .undone hresult hcheck hfile hanswer
      · simp only [checked, bne_iff_ne, ne_eq, hfile]
        exact .kept hresult (by simp [Request.Answers, hcheck, hfile]) rfl

theorem run_insertion_cases {b b' : SourceBuffer} {a : Result Insertion} (h : q.insertion.run.run b = (a, b')) :
    wasUndone a ∧ b' = b ∨ wasUndone a = false ∧ b'.close = (q.made b).close := by
  have hends := ends_insertion q b
  rw [h] at hends
  cases hends with
  | failed e hclose => exact .inr ⟨rfl, hclose⟩
  | kept hresult hanswer hclose => exact .inr ⟨rfl, hclose⟩
  | undone hresult hcheck hfile hrejects => exact .inl ⟨rfl, rfl⟩

theorem answers_of_run_insertion {q : Request} {b b' : SourceBuffer} {i : Insertion}
    (hrun : q.insertion.run.run b = (.ok i, b')) :
    let c := q.course b.file b.nextRegion
    c.result = .ok () ∧ q.Answers b.file (b.grow c).close.text i.isKept := by
  have hends := ends_insertion q b
  rw [hrun] at hends
  cases hends with
  | kept hresult hanswer hclose => exact ⟨hresult, hanswer⟩
  | undone hresult hcheck hfile hrejects =>
    exact ⟨hresult, by simp [Request.Answers, hcheck, hfile, hrejects, Insertion.isKept]⟩

theorem close_perform (qs : List Request) (b : SourceBuffer) :
    let (answers, b') := perform qs b
    let (ps, next) := Request.placements b.file b.nextRegion (Request.lasting qs answers)
    b'.close = (b.extend ps next).close := by
  simp only
  induction qs generalizing b with
  | nil => rfl
  | cons q qs ih =>
    cases hrun : q.insertion.run.run b with
    | mk a b₁ =>
      rw [perform_cons, hrun, Request.lasting_cons]
      rcases run_insertion_cases q hrun with ⟨ha, rfl⟩ | ⟨ha, hclose⟩
      · -- what is undone leaves the buffer as it was, so it may as well not have been asked
        rw [if_pos ha]
        exact ih b₁
      · have hfile : b₁.file = b.file := (congrArg file hclose :)
        have hnext : b₁.nextRegion = (q.course b.file b.nextRegion).next := (congrArg nextRegion hclose :)
        rw [if_neg (by simp [ha]), Request.placements, ih, hfile, hnext, close_extend, hclose,
          ← close_extend, Request.made, grow]
        simp [extend]

end Editing

end ParallelPatterns
