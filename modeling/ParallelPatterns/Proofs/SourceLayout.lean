import Mathlib.Data.List.Induction
import Mathlib.Data.List.Nodup
import Mathlib.Data.List.Perm.Basic
import ParallelPatterns.Proofs.Requests

/-!
# Where inserted lines stand

Directives are put to their lines one after another, each next to its line. So each line of a source
has before it the lines of the directives that stand before it, in the order in which they came, and
behind it the lines of those that stand behind it, the last one first. `foldl_apply_eq_flatMap` says
this of any lines with distinct numbers, by induction on the directives; `layout` is the same
picture for the lines of a file. Without the inserted lines the text of the file remains
(`layout_perform`).
-/

namespace ParallelPatterns

open List Text Directive Request SourceBuffer

variable {l : SourceLine} {p : Placement}

/-! ## The lines around a line -/

theorem Directive.stands_cases (l : SourceLine) (d : Directive) :
    l.number.any d.standsBefore = (d.target.any (l.number == some ·) && d.position.isBefore) ∧
      l.number.any d.standsAfter = (d.target.any (l.number == some ·) && !d.position.isBefore) := by
  unfold standsBefore standsAfter target
  cases d.position <;> cases d.first <;> cases d.last <;> cases l.number <;>
    simp [DirectivePosition.isBefore, DirectivePosition.isAfter, eq_comm]

namespace Placement

theorem put_append {n : Int} (htarget : p.directive.target = some n) {xs : List SourceLine}
    (h : ∀ l ∈ xs, l.number ≠ some n) (ys : List SourceLine) : p.put (xs ++ ys) = xs ++ p.put ys := by
  simp only [put, htarget]
  induction xs with
  | nil => rfl
  | cons l xs ih =>
    have hl : (l.number == some n) = false := by simpa using h l (by simp)
    rw [cons_append, insertBeside, if_neg (by simp [hl]), ih fun m hm => h m (by simp [hm]), cons_append]

def markAll (ps : List Placement) (l : SourceLine) : SourceLine := ps.foldl (fun l p => p.mark l) l

/-- The lines that directives put before a line, in their order. -/
def before (ps : List Placement) (l : SourceLine) : List SourceLine :=
  (ps.filter fun p => l.number.any p.directive.standsBefore).map (·.line)

def behind (ps : List Placement) (l : SourceLine) : List SourceLine :=
  ((ps.filter fun p => l.number.any p.directive.standsAfter).map (·.line)).reverse

/-- A line with the lines that directives put around it. -/
def around (ps : List Placement) (l : SourceLine) : List SourceLine := before ps l ++ markAll ps l :: behind ps l

@[simp]
theorem mark_number (p : Placement) (l : SourceLine) : (p.mark l).number = l.number := by
  unfold mark
  split <;> rfl

theorem mark_of_number_eq_none (p : Placement) (h : l.number = none) : p.mark l = l := by
  simp [mark, h]

variable (ps : List Placement)

@[simp]
theorem markAll_number (l : SourceLine) : (markAll ps l).number = l.number := by
  unfold markAll
  induction ps generalizing l with
  | nil => rfl
  | cons p ps ih => rw [foldl_cons, ih, mark_number]

theorem markAll_concat (p : Placement) (l : SourceLine) : markAll (ps ++ [p]) l = p.mark (markAll ps l) := by
  simp [markAll]

theorem before_concat (p : Placement) (l : SourceLine) :
    before (ps ++ [p]) l = before ps l ++ if l.number.any p.directive.standsBefore then [p.line] else [] := by
  unfold before
  cases h : l.number.any p.directive.standsBefore <;> simp [h]

theorem behind_concat (p : Placement) (l : SourceLine) :
    behind (ps ++ [p]) l = (if l.number.any p.directive.standsAfter then [p.line] else []) ++ behind ps l := by
  unfold behind
  cases h : l.number.any p.directive.standsAfter <;> simp [h]

section layout

variable {ps : List Placement} (hps : ∀ p ∈ ps, p.line.number = none)
include hps

theorem number_of_mem_before {m : SourceLine} (hm : m ∈ before ps l) : m.number = none := by
  obtain ⟨p, hp, rfl⟩ := mem_map.1 hm
  exact hps p (mem_filter.1 hp).1

theorem number_of_mem_behind {m : SourceLine} (hm : m ∈ behind ps l) : m.number = none := by
  obtain ⟨p, hp, rfl⟩ := mem_map.1 (mem_reverse.1 hm)
  exact hps p (mem_filter.1 hp).1

theorem map_mark_before (p : Placement) (l : SourceLine) : (before ps l).map p.mark = before ps l := by
  rw [map_congr_left fun m hm => p.mark_of_number_eq_none (number_of_mem_before hps hm), map_id']

theorem map_mark_behind (p : Placement) (l : SourceLine) : (behind ps l).map p.mark = behind ps l := by
  rw [map_congr_left fun m hm => p.mark_of_number_eq_none (number_of_mem_behind hps hm), map_id']

theorem number_ne_of_mem_around {n : Int} (hl : l.number ≠ some n) : ∀ m ∈ around ps l, m.number ≠ some n := by
  intro m hm
  rcases mem_append.1 hm with hm | hm
  · simp [number_of_mem_before hps hm]
  · rcases mem_cons.1 hm with rfl | hm
    · rwa [markAll_number]
    · simp [number_of_mem_behind hps hm]

theorem map_mark_around_of_ne (h : p.directive.target ≠ l.number) :
    (around ps l).map p.mark = around (ps ++ [p]) l := by
  have hother : p.directive.target.any (l.number == some ·) = false := by
    cases htarget : p.directive.target with
    | none => rfl
    | some n => simpa using fun hn => h (htarget.trans hn.symm)
  obtain ⟨hbefore, hafter⟩ := stands_cases l p.directive
  unfold around
  rw [before_concat, behind_concat, hbefore, hafter, hother, map_append, map_cons,
    map_mark_before hps, map_mark_behind hps, markAll_concat]
  simp

theorem map_mark_put_around {n : Int} (htarget : p.directive.target = some n)
    (hnone : p.line.number = none) (hl : l.number = some n) (rest : List SourceLine) :
    (p.put (around ps l ++ rest)).map p.mark = around (ps ++ [p]) l ++ rest.map p.mark := by
  have hskip : ∀ m ∈ before ps l, m.number ≠ some n := by
    intro m hm
    simp [number_of_mem_before hps hm]
  have hhit : ((markAll ps l).number == some n) := by simp [hl]
  have hline : p.mark p.line = p.line := p.mark_of_number_eq_none hnone
  obtain ⟨hbefore, hafter⟩ := stands_cases l p.directive
  unfold around
  rw [append_assoc, put_append htarget hskip, cons_append, put, before_concat, behind_concat,
    hbefore, hafter, htarget, hl]
  simp only [insertBeside, if_pos hhit]
  cases p.directive.position.isBefore <;>
    simp [hline, map_mark_before hps, map_mark_behind hps, markAll_concat]

theorem apply_flatMap_around (hnone : p.line.number = none) {ls : List SourceLine}
    (hnumbered : ∀ l ∈ ls, l.number ≠ none) (hdistinct : (ls.map (·.number)).Nodup) :
    apply (ls.flatMap (around ps)) p = ls.flatMap (around (ps ++ [p])) := by
  have hother : ∀ ls : List SourceLine, (∀ l ∈ ls, p.directive.target ≠ l.number) →
      (ls.flatMap (around ps)).map p.mark = ls.flatMap (around (ps ++ [p])) := by
    intro ls hne
    rw [map_flatMap]
    exact flatMap_congr fun l hl => map_mark_around_of_ne hps (hne l hl)
  unfold apply
  cases htarget : p.directive.target with
  | none =>
    rw [put, htarget]
    exact hother ls fun l hl => htarget ▸ (hnumbered l hl).symm
  | some n =>
    induction ls with
    | nil => simp [put, htarget, insertBeside]
    | cons l ls ih =>
      rw [map_cons, nodup_cons] at hdistinct
      rw [flatMap_cons, flatMap_cons]
      by_cases hl : l.number = some n
      · -- no later line has this number, so the directive stands at this one only
        rw [map_mark_put_around hps htarget hnone hl, hother ls]
        intro m hm heq
        rw [htarget, ← hl] at heq
        exact hdistinct.1 (heq ▸ mem_map_of_mem hm)
      · rw [put_append htarget (number_ne_of_mem_around hps hl), map_append,
          ih (fun m hm => hnumbered m (mem_cons_of_mem l hm)) hdistinct.2,
          map_mark_around_of_ne hps (htarget ▸ Ne.symm hl)]

end layout

theorem foldl_apply_eq_flatMap {ps : List Placement} (hps : ∀ p ∈ ps, p.line.number = none)
    {ls : List SourceLine} (hnumbered : ∀ l ∈ ls, l.number ≠ none)
    (hdistinct : (ls.map (·.number)).Nodup) : ps.foldl apply ls = ls.flatMap (around ps) := by
  induction ps using reverseRecOn with
  | nil => exact (flatMap_singleton' ls).symm
  | append_singleton ps p ih =>
    -- the last directive is put next to its line, inside of all that were put there before it
    have hinit : ∀ q ∈ ps, q.line.number = none := fun q hq => hps q (by simp [hq])
    rw [foldl_append, ih hinit, foldl_cons]
    exact apply_flatMap_around hinit (hps p (by simp)) hnumbered hdistinct

end Placement

/-! ## The layout of a file -/

namespace SourceLine

/-- A line without regions, ended by a line feed. -/
def bare (l : SourceLine) : SourceLine := { l.closed with owned := none, regions := [] }

theorem bare_closed (l : SourceLine) : l.closed.bare = l.bare := by
  unfold bare
  rw [closed_closed]

theorem map_closed_content (ls : List SourceLine) :
    ls.map (·.closed.content) = (ls.map (·.bare)).map (·.content) := by
  rw [map_map]
  rfl

@[simp]
theorem bare_number (l : SourceLine) : l.bare.number = l.number := l.closed_number

end SourceLine

namespace Note

theorem isSupported_of_target {n : Note} {k : Int} (h : n.directive.target = some k) : n.isSupported := by
  unfold target at h
  unfold isSupported
  cases hposition : n.directive.position with
  | unsupported literal => simp [hposition] at h
  | _ => rfl

end Note

namespace Placement

theorem bare_markAll (ps : List Placement) (l : SourceLine) : (markAll ps l).bare = l.bare := by
  unfold markAll
  induction ps generalizing l with
  | nil => rfl
  | cons p ps ih =>
    rw [foldl_cons, ih]
    unfold mark
    split
    · rw [SourceLine.bare, SourceLine.closed_join]
      rfl
    · rfl

section notes

variable {ps : List Placement} {notes : List Note} (hnotes : ps.map (·.toNote) = notes.filter Note.isSupported)
  (hlines : ∀ p ∈ ps, p.line.bare = p.toNote.plain.bare)
include hnotes hlines

theorem map_bare_filter (choice : Directive → Bool) (hchoice : ∀ n : Note, choice n.directive → n.isSupported) :
    ((ps.filter fun p => choice p.directive).map (·.line)).map (·.bare) =
      ((notes.filter fun n => choice n.directive).map (·.plain)).map (·.bare) := by
  have hsupported : (notes.filter Note.isSupported).filter (fun n => choice n.directive) =
      notes.filter fun n => choice n.directive := by
    rw [filter_filter]
    apply filter_congr
    intro n _
    cases h : choice n.directive with
    | false => rfl
    | true => rw [hchoice n h]; rfl
  rw [← hsupported, ← hnotes, filter_map, map_map, map_map, map_map]
  apply map_congr_left
  intro p hp
  exact hlines p (mem_filter.1 hp).1

theorem map_bare_around (l : SourceLine) :
    (around ps l).map (·.bare) =
      ((notes.filter fun n => l.number.any n.directive.standsBefore).map (·.plain) ++
        l :: ((notes.filter fun n => l.number.any n.directive.standsAfter).map
        (·.plain)).reverse).map (·.bare) := by
  have hsupported : ∀ n : Note, l.number.any n.directive.standsBefore ∨
      l.number.any n.directive.standsAfter → n.isSupported := by
    intro n hn
    obtain ⟨hbefore, hafter⟩ := stands_cases l n.directive
    rw [hbefore, hafter] at hn
    cases htarget : n.directive.target with
    | none => simp [htarget] at hn
    | some k => exact Note.isSupported_of_target htarget
  unfold around before behind
  simp only [map_append, map_cons, bare_markAll]
  rw [map_reverse, map_reverse,
    map_bare_filter hnotes hlines (fun d => l.number.any d.standsBefore) fun n hn => hsupported n (.inl hn),
    map_bare_filter hnotes hlines (fun d => l.number.any d.standsAfter) fun n hn => hsupported n (.inr hn)]

end notes

end Placement

namespace SourceBuffer

/-- The lines of a file with notes: before each line, in their order, those that stand before it,
and behind it, the last one first, those that stand behind it. -/
def layout (texts : List String) (notes : List Note) : List SourceLine :=
  texts.zipIdx.flatMap fun (text, i) =>
    (notes.filter (·.directive.standsBefore (i + 1))).map (·.plain) ++
      { number := some (i + 1), content := text, parent := i + 1 } ::
        ((notes.filter (·.directive.standsAfter (i + 1))).map (·.plain)).reverse

variable (file : Int) (text : String)

theorem numbers_ofText :
    (ofText file text).lines.map (·.number) =
      (range (feedLines text).length).map fun i : Nat => some ((i : Int) + 1) := by
  have hnumbers : (ofText file text).lines.map (·.number) =
      ((feedLines text).zipIdx.map (·.2)).map fun i : Nat => some ((i : Int) + 1) := by
    simp only [ofText, map_map]
    rfl
  rw [hnumbers, zipIdx_map_snd, range_eq_range']

theorem nodup_numbers_ofText : ((ofText file text).lines.map (·.number)).Nodup := by
  rw [numbers_ofText]
  refine nodup_range.map ?_
  intro i j hij
  have hsucc : (i : Int) + 1 = j + 1 := Option.some.inj hij
  omega

theorem filter_layout (notes : List Note) :
    (layout (feedLines text) notes).filter (·.number.isSome) = (ofText file text).lines := by
  have hplain : ∀ ns : List Note, (ns.map (·.plain)).filter (·.number.isSome) = [] := by
    intro ns
    rw [filter_eq_nil_iff]
    intro l hl
    obtain ⟨n, -, rfl⟩ := mem_map.1 hl
    simp [Note.plain]
  simp only [layout, filter_flatMap, filter_append, filter_cons, filter_reverse, hplain]
  exact flatMap_pure_eq_map _ _

end SourceBuffer

namespace Request

variable {file next : Int} {qs : List Request}

theorem number_of_mem_placements (hp : p ∈ (placements file next qs).1) : p.line.number = none := by
  obtain ⟨parents, next, hline⟩ := exists_lineIn_of_mem_placements hp
  rw [hline]
  rfl

theorem bare_of_mem_placements (hp : p ∈ (placements file next qs).1) : p.line.bare = p.toNote.plain.bare := by
  obtain ⟨parents, next, hline⟩ := exists_lineIn_of_mem_placements hp
  rw [hline]
  unfold Note.lineIn SourceLine.bare SourceLine.closed
  split <;> rfl

end Request

namespace Editing

theorem map_closed_perform (file : Int) (text : String) (qs : List Request) :
    let (answers, b) := perform qs (ofText file text)
    b.lines.map (·.closed) =
      ((ofText file text).lines.flatMap
        (Placement.around (placements file 0 (lasting qs answers)).1)).map (·.closed) := by
  have hclose := congrArg SourceBuffer.lines (close_perform qs (ofText file text))
  simp only at hclose ⊢
  rw [← Placement.foldl_apply_eq_flatMap (fun p hp => number_of_mem_placements hp)
    (fun l hl => by obtain ⟨e, -, rfl⟩ := mem_map.1 hl; simp) (nodup_numbers_ofText file text)]
  exact hclose

theorem map_bare_perform (file : Int) (text : String) (qs : List Request) :
    let (answers, b) := perform qs (ofText file text)
    b.lines.map (·.bare) =
      (layout (feedLines text) ((lasting qs answers).flatMap (notes file))).map (·.bare) := by
  have hclosed := map_closed_perform file text qs
  simp only at hclosed ⊢
  generalize lasting qs (perform qs (ofText file text)).1 = kept at hclosed ⊢
  have hbare : ∀ ms : List SourceLine, ms.map (·.bare) = (ms.map (·.closed)).map (·.bare) := by
    intro ms
    rw [map_map]
    exact map_congr_left fun l _ => l.bare_closed.symm
  rw [hbare, hclosed, ← hbare, map_flatMap, layout, map_flatMap, ofText, flatMap_map]
  apply flatMap_congr
  intro e _
  rw [Placement.map_bare_around (map_toNote_placements file 0 kept) fun p hp =>
    bare_of_mem_placements hp]
  rfl

end Editing

/-! ## Each line once -/

namespace Directive

/-- Does a directive stand at one of the lines of a file with so many lines? -/
def standsIn (count : Nat) (d : Directive) : Bool := d.target.any fun n => 1 ≤ n && n ≤ (count : Int)

def standsAmong (ls : List SourceLine) (d : Directive) : Bool := ls.any fun l => d.target.any (l.number == some ·)

end Directive

section perm

variable {α : Type} (d : α → Directive) (f : α → SourceLine) {ls : List SourceLine}

theorem flatMap_target (hdistinct : (ls.map (·.number)).Nodup) (x : α) :
    (ls.flatMap fun l => if (d x).target.any (l.number == some ·) then [f x] else []) =
      if (d x).standsAmong ls then [f x] else [] := by
  induction ls with
  | nil => rfl
  | cons l ls ih =>
    rw [map_cons, nodup_cons] at hdistinct
    rw [flatMap_cons, ih hdistinct.2]
    unfold standsAmong
    rw [any_cons]
    cases hl : (d x).target.any (l.number == some ·) with
    | false => simp
    | true =>
      have hrest : (ls.any fun m => (d x).target.any (m.number == some ·)) = false := by
        rw [any_eq_false]
        intro m hm
        cases htarget : (d x).target with
        | none => simp
        | some n =>
          rw [htarget] at hl
          simp only [Option.any_some, beq_iff_eq] at hl ⊢
          intro hn
          exact hdistinct.1 (by rw [hl, ← hn]; exact mem_map_of_mem hm)
      simp [hrest]

theorem flatMap_around_perm (g : SourceLine → SourceLine) (hdistinct : (ls.map (·.number)).Nodup) (xs : List α) :
    (ls.flatMap fun l => (xs.filter fun x => l.number.any (d x).standsBefore).map f ++
      g l :: ((xs.filter fun x => l.number.any (d x).standsAfter).map f).reverse).Perm
      (ls.map g ++ (xs.filter fun x => (d x).standsAmong ls).map f) := by
  induction xs with
  | nil =>
    simp [← map_eq_flatMap]
  | cons x xs ih =>
    have hstep : ∀ l ∈ ls,
        (((x :: xs).filter fun x => l.number.any (d x).standsBefore).map f ++
          g l :: (((x :: xs).filter fun x => l.number.any (d x).standsAfter).map f).reverse).Perm
        ((if (d x).target.any (l.number == some ·) then [f x] else []) ++
          ((xs.filter fun x => l.number.any (d x).standsBefore).map f ++
            g l :: ((xs.filter fun x => l.number.any (d x).standsAfter).map f).reverse)) := by
      intro l _
      obtain ⟨hbefore, hafter⟩ := stands_cases l (d x)
      rw [filter_cons, filter_cons, hbefore, hafter]
      cases (d x).target.any (l.number == some ·) <;> cases (d x).position.isBefore
      · simp
      · simp
      · -- behind the line, the first one comes last
        simpa using perm_append_singleton (f x) (_ ++ g l :: _)
      · simp
    refine (Perm.flatMap_left ls hstep).trans ?_
    refine (flatMap_append_perm ls _ _).symm.trans ?_
    rw [flatMap_target d f hdistinct]
    refine (ih.append_left _).trans ?_
    rw [filter_cons]
    cases (d x).standsAmong ls with
    | false => simp
    | true => simpa using perm_middle.symm

end perm

theorem Directive.standsAmong_ofText (file : Int) (text : String) (d : Directive) :
    d.standsAmong (ofText file text).lines = d.standsIn (feedLines text).length := by
  unfold standsAmong standsIn
  cases d.target with
  | none => simp
  | some n =>
    have hnumbers : ((ofText file text).lines.any fun l => l.number == some n) =
        ((ofText file text).lines.map (·.number)).any (· == some n) := by
      rw [any_map]
      rfl
    simp only [Option.any_some]
    rw [hnumbers, numbers_ofText, Bool.eq_iff_iff, any_map, any_eq_true]
    simp only [Function.comp_apply, beq_iff_eq, Option.some.injEq, Bool.and_eq_true,
      decide_eq_true_eq, mem_range]
    constructor
    · omega
    · rintro ⟨hfirst, hlast⟩
      exact ⟨(n - 1).toNat, by omega, by omega⟩

namespace SourceBuffer

theorem layout_perm (file : Int) (text : String) (notes : List Note) :
    (layout (feedLines text) notes).Perm
      ((ofText file text).lines ++ (notes.filter (·.directive.standsIn (feedLines text).length)).map
        (·.plain)) := by
  have hperm := flatMap_around_perm (fun n : Note => n.directive) (·.plain) id
    (nodup_numbers_ofText file text) notes
  simp only [standsAmong_ofText, map_id] at hperm
  refine Perm.trans (.of_eq ?_) hperm
  rw [ofText, flatMap_map]
  rfl

end SourceBuffer

/-! ## The text of a file -/

namespace Text

/-- The text ended by a line feed. -/
def endLine (s : String) : String := if ends "\n" s then s else s ++ "\n"

def endChars (cs : List Char) : List Char := if cs.getLast? = some '\n' then cs else cs ++ ['\n']

variable (s : String)

theorem ends_feed : ends "\n" s = decide (s.toList.getLast? = some '\n') := by
  rw [Bool.eq_iff_iff, decide_eq_true_iff, ends, isSuffixOf_iff_suffix]
  constructor
  · rintro ⟨cs, hcs⟩
    rw [← hcs]
    exact getLast?_concat
  · intro h
    exact ⟨_, dropLast_append_getLast? _ h⟩

theorem toList_endLine : (endLine s).toList = endChars s.toList := by
  unfold endLine endChars
  rw [ends_feed]
  split <;> simp_all

theorem endChars_append {xs ys : List Char} (h : ys ≠ []) : endChars (xs ++ ys) = xs ++ endChars ys := by
  have hlast : (xs ++ ys).getLast? = ys.getLast? := getLast?_append_of_ne_nil xs h
  unfold endChars
  rw [hlast]
  split
  · rfl
  · exact append_assoc ..

theorem flatMap_feedLinesGo (acc cs : List Char) :
    (feedLinesGo acc cs).flatMap endChars = if acc = [] ∧ cs = [] then [] else endChars (acc.reverse ++ cs) := by
  induction cs generalizing acc with
  | nil => cases acc <;> simp [feedLinesGo]
  | cons c cs ih =>
    rw [feedLinesGo]
    split
    case isTrue hc =>
      have hline : endChars (c :: acc).reverse = acc.reverse ++ [c] := by simp [endChars, hc]
      rw [flatMap_cons, ih]
      by_cases hcs : cs = []
      · simp [hcs]
      · have happend : endChars (acc.reverse ++ [c] ++ cs) = acc.reverse ++ [c] ++ endChars cs :=
          endChars_append hcs
        simp_all
    case isFalse =>
      rw [ih]
      simp

theorem join_map_endLine_feedLines : String.join ((feedLines s).map endLine) =
    if s = "" then "" else endLine s := by
  apply String.toList_injective
  have hlines : ((feedLines s).map endLine).flatMap String.toList = (feedLinesGo [] s.toList).flatMap endChars := by
    rw [feedLines, map_map, flatMap_map]
    apply flatMap_congr
    intro cs _
    rw [Function.comp_apply, toList_endLine, String.toList_ofList]
  rw [String.toList_join, hlines, flatMap_feedLinesGo]
  split <;> simp_all [toList_endLine]

end Text

namespace SourceBuffer

theorem join_closed_ofText (file : Int) (text : String) :
    String.join ((ofText file text).lines.map (·.closed.content)) = if text = "" then "" else endLine text := by
  have hcontent : ∀ l : SourceLine, l.closed.content = endLine l.content := by
    intro l
    unfold SourceLine.closed endLine
    split <;> rfl
  have hlines : (ofText file text).lines.map (·.closed.content) = (feedLines text).map endLine := by
    simp only [hcontent, ofText, map_map]
    nth_rewrite 2 [← zipIdx_map_fst 0 (feedLines text)]
    rw [map_map]
    rfl
  rw [hlines, join_map_endLine_feedLines]

end SourceBuffer

/-! ## Requests that are all kept -/

namespace Directive

mutual

/-- The directives of a tree for a file, each before its children. A directive for another file is
left out with all below it. -/
def nodes (file : Int) : Directive → List Directive
  | d@⟨_, f, _, _, _, children⟩ => if f != some file then [] else d :: nodesAll file children

/-- The directives of trees for a file. -/
def nodesAll (file : Int) : List Directive → List Directive
  | [] => []
  | d :: ds => nodes file d ++ nodesAll file ds

end

/-- The notes of the directives of a tree for a file. -/
def notes (file : Int) (asComment : Bool) (d : Directive) : List Note := (d.nodes file).map fun e => ⟨e, asComment⟩

variable (file : Int)

theorem nodes_eq (d : Directive) :
    d.nodes file = if d.file != some file then [] else d :: nodesAll file d.children := by
  cases d
  rfl

theorem walk_fst_of_snd :
    (∀ d : Directive, (d.walk file).2 → (d.walk file).1 = d.nodes file) ∧
    ∀ ds : List Directive, (walkAll file ds).2 → (walkAll file ds).1 = nodesAll file ds := by
  refine induction ?node ?nil ?cons
  case node =>
    intro d ih hend
    rw [walk_eq] at hend
    rw [walk_eq, nodes_eq]
    by_cases hknown : d.first.isNone || d.last.isNone || d.file.isNone
    · rw [if_pos hknown] at hend
      cases hend
    · rw [if_neg hknown] at hend ⊢
      by_cases hfile : d.file != some file
      · rw [if_pos hfile, if_pos hfile]
      · rw [if_neg hfile] at hend
        rw [if_neg hfile, if_neg hfile]
        by_cases hposition : d.position.failure?.isSome
        · rw [if_pos hposition] at hend
          cases hend
        · rw [if_neg hposition] at hend ⊢
          rw [ih hend]
  case nil =>
    intro _
    rfl
  case cons =>
    intro d ds ihd ihds hend
    rw [walkAll_cons] at hend
    rw [walkAll_cons, nodesAll]
    by_cases hgoes : (d.walk file).2
    · rw [if_pos hgoes] at hend ⊢
      rw [ihd hgoes, ihds hend]
    · rw [if_neg hgoes] at hend
      cases hend

end Directive

namespace Editing

theorem file_run_insertion (q : Request) (b : SourceBuffer) : (q.insertion.run.run b).2.file = b.file := by
  cases hrun : q.insertion.run.run b with
  | mk a b' =>
    rcases run_insertion_cases q hrun with ⟨-, rfl⟩ | ⟨-, hclose⟩
    · rfl
    · exact (congrArg SourceBuffer.file hclose :)

theorem notes_of_result {q : Request} {b : SourceBuffer} (h : (q.course b.file b.nextRegion).result = .ok ()) :
    q.notes b.file = q.directive.notes b.file q.asComment := by
  have hend := (course_spec b.file q.asComment q.parents b.nextRegion q.directive).1
  unfold Request.course at h
  rw [h] at hend
  rw [Request.notes, reached, (walk_fst_of_snd b.file).1 q.directive hend.symm]
  rfl

theorem flatMap_notes_of_kept (qs : List Request) (b : SourceBuffer) (h : ∀ a ∈ (perform qs b).1, a = .ok .kept) :
    qs.flatMap (notes b.file) = qs.flatMap fun q => q.directive.notes b.file q.asComment := by
  induction qs generalizing b with
  | nil => rfl
  | cons q qs ih =>
    have hresult := (answers_of_run_insertion (Prod.ext (h _ mem_cons_self) rfl)).1
    have htail := ih (q.insertion.run.run b).2 fun a ha => h a (mem_cons_of_mem _ ha)
    rw [file_run_insertion] at htail
    rw [flatMap_cons, flatMap_cons, notes_of_result hresult, htail]

/-- Whatever is inserted into a file, its lines stay in their order and keep their contents, up to a
line feed at the end, each with the notes that stand before it in the order of their insertion and
with those that stand behind it in the reverse order; a note at no line of the file is left out. If
all insertions stay, the notes are those of all directives for the file, each before its children.
Without the notes the file remains, up to a line feed at its end. -/
theorem layout_perform (file : Int) (text : String) (qs : List Request) :
    let (answers, b) := perform qs (ofText file text)
    let notes := (Request.lasting qs answers).flatMap (Request.notes file)
    ((∀ a ∈ answers, a = .ok .kept) →
        notes = qs.flatMap fun q => q.directive.notes file q.asComment) ∧
      b.lines.map (·.bare) = (layout (feedLines text) notes).map (·.bare) ∧
      (b.lines.filter (·.number.isSome)).map (·.bare) = (ofText file text).lines.map (·.bare) ∧
      String.join ((b.lines.filter (·.number.isSome)).map (·.closed.content)) =
        if text = "" then "" else endLine text := by
  have hlayout := map_bare_perform file text qs
  have hfile : (((perform qs (ofText file text)).2.lines.filter (·.number.isSome)).map (·.bare)) =
      (ofText file text).lines.map (·.bare) := by
    have hnumber : ∀ ls : List SourceLine,
        (ls.filter (·.number.isSome)).map (·.bare) = (ls.map (·.bare)).filter (·.number.isSome) := by
      intro ls
      rw [filter_map]
      simp [Function.comp_def]
    rw [hnumber, hlayout, ← hnumber, filter_layout]
  refine ⟨?_, hlayout, hfile, ?_⟩
  · intro hkept
    rw [Request.lasting_of_kept (length_perform qs _) hkept]
    exact flatMap_notes_of_kept qs (ofText file text) hkept
  · rw [SourceLine.map_closed_content, hfile, ← SourceLine.map_closed_content, join_closed_ofText]

/-- A directive with a child for another file and a child for its own, and then a comment at the
same line. -/
theorem layout_perform_tree :
    let inner : Directive :=
      { text := "inner", file := some 1, first := some 2, last := some 2, position := .afterEnd }
    let outer : Directive :=
      { text := "outer", file := some 1, first := some 1, last := some 2
        children := [{ inner with file := some 2 }, inner] }
    let (answers, b) := perform [{ directive := outer }, { directive := inner, asComment := true }]
      (ofText 1 "a\nb")
    (∀ a ∈ answers, a = .ok .kept) ∧
      b.lines.map (·.bare) =
        (layout (feedLines "a\nb") [⟨outer, false⟩, ⟨inner, false⟩, ⟨inner, true⟩]).map (·.bare) := by
  intro inner outer
  have hrun := layout_perform 1 "a\nb" [{ directive := outer }, { directive := inner, asComment := true }]
  simp only at hrun ⊢
  have hkept : ∀ a ∈ (perform [{ directive := outer }, { directive := inner, asComment := true }]
      (ofText 1 "a\nb")).1, a = .ok .kept := by decide
  refine ⟨hkept, ?_⟩
  rw [hrun.2.1, hrun.1 hkept]
  rfl

end Editing

end ParallelPatterns
