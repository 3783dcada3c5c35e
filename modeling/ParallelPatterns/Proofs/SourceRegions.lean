import ParallelPatterns.Proofs.SourceLayout

/-!
# The regions of a source

A directive with children opens a region, the next free one. `Follows` says how the lines that are
put in for notes are numbered and which lines they cover: it holds of the notes of a tree, node by
node, and of trees one after another. What is undone gives its regions back, so over all requests
the regions are numbered one after another, in the order of the notes that stay
(`Request.openings`). `regions_perform` says for each line which regions it opens and to which it
belongs.
-/

namespace ParallelPatterns

open List SourceLine Request Placement

variable {n : Note} {ps : List Placement} {l : SourceLine}

/-! ## The regions of notes -/

namespace Note

/-- The regions that notes open one after another, each with the note that opens it. -/
def openings (next : Int) : List Note → List (Int × Note)
  | [] => []
  | n :: ns => (n.opened next).toList.map (·, n) ++ openings (n.nextRegion next) ns

/-- Is a line covered by the directive of a note, or by one that is come to below it? -/
def Reaches (file : Int) (k : Int) (n : Note) : Prop := ∃ e ∈ n.directive.reached file, e.covers k

theorem nextRegion_eq (next : Int) (n : Note) : n.nextRegion next = next + (n.opened next).toList.length := by
  unfold nextRegion opened
  split <;> simp

theorem openings_append (next : Int) (xs ys : List Note) :
    openings next (xs ++ ys) = openings next xs ++ openings (next + (openings next xs).length) ys := by
  induction xs generalizing next with
  | nil => simp [openings]
  | cons x xs ih =>
    have hnext : next + ((openings next (x :: xs)).length : Int) =
        x.nextRegion next + (openings (x.nextRegion next) xs).length := by
      rw [openings, length_append, length_map, nextRegion_eq]
      omega
    rw [hnext, cons_append, openings, openings, ih, append_assoc]

theorem map_fst_openings (next : Int) (ns : List Note) :
    (openings next ns).map (·.1) = (range (openings next ns).length).map fun i : Nat => next + i := by
  induction ns generalizing next with
  | nil => rfl
  | cons n ns ih =>
    rw [openings, map_append, ih, length_append, range_add]
    unfold opened nextRegion
    split
    · simp [Int.add_assoc]
    · simp

theorem mem_openings_bounds {next r : Int} {ns : List Note} (h : (r, n) ∈ openings next ns) :
    next ≤ r ∧ r < next + (openings next ns).length := by
  have hr : r ∈ (openings next ns).map (·.1) := mem_map_of_mem h
  rw [map_fst_openings] at hr
  obtain ⟨i, hi, rfl⟩ := mem_map.1 hr
  have hlt := mem_range.1 hi
  omega

end Note

/-- The lines that are put in for notes, inside of regions, and their regions. The regions are
numbered one after another; a line opens the region of its note; no line belongs to a region twice;
and a region comes to the lines that are covered below the note that opens it. -/
structure Follows (file : Int) (parents : List Int) (next : Int) (notes : List Note)
    (ps : List Placement) (next' : Int) : Prop where
  next_eq : next' = next + (Note.openings next notes).length
  owned_eq : ps.filterMap (fun p => p.line.owned.map (·, p.toNote)) =
    (Note.openings next notes).filter (·.2.isSupported)
  nodup : parents.Nodup → (∀ r ∈ parents, r < next) → ∀ p ∈ ps, p.line.regions.Nodup
  covered_iff : ∀ r k, (∃ p ∈ ps, p.directive.covers k ∧ r ∈ p.line.regions) ↔
    (r ∈ parents ∧ ∃ n ∈ notes, n.directive.covers k) ∨
      ∃ n, (r, n) ∈ Note.openings next notes ∧ n.Reaches file k

namespace Follows

variable {file : Int} {parents : List Int} {next : Int}

theorem nil : Follows file parents next [] [] next where
  next_eq := by simp [Note.openings]
  owned_eq := rfl
  nodup _ _ p hp := by cases hp
  covered_iff r k := by simp [Note.openings]

theorem misplaced {e : Failure} (hposition : n.directive.position.failure? = some e)
    (hreached : n.directive.reached file = [n.directive]) :
    Follows file parents next [n] [] (n.nextRegion next) where
  next_eq := by simp [Note.openings, Note.nextRegion_eq]
  owned_eq := by
    have hsupported : n.isSupported = false := by simp [Note.isSupported, hposition]
    unfold Note.openings Note.opened
    split <;> simp [hsupported, Note.openings]
  nodup _ _ p hp := by cases hp
  covered_iff r k := by
    have hcovers : n.directive.covers k = false := by
      unfold Directive.covers
      cases hp : n.directive.position with
      | unsupported literal => simp
      | _ => simp [hp, DirectivePosition.failure?] at hposition
    have hreaches : ¬ n.Reaches file k := by simp [Note.Reaches, hreached, hcovers]
    have hopened : ∀ m, (r, m) ∈ Note.openings next [n] → m = n := by
      intro m hm
      simp only [Note.openings, append_nil, mem_map] at hm
      obtain ⟨_, -, heq⟩ := hm
      exact (Prod.ext_iff.1 heq).2.symm
    constructor
    · rintro ⟨p, hp, -⟩
      cases hp
    · rintro (⟨-, m, hm, hk⟩ | ⟨m, hm, hk⟩)
      · rw [mem_singleton.1 hm, hcovers] at hk
        cases hk
      · exact absurd (hopened m hm ▸ hk) hreaches

theorem node {notes : List Note} {next' : Int} (hposition : n.directive.position.failure? = none)
    (hreached : n.directive.reached file = n.directive :: notes.map (·.directive))
    (h : Follows file (n.lineIn parents next).regions (n.nextRegion next) notes ps next') :
    Follows file parents next (n :: notes) (⟨n, n.lineIn parents next⟩ :: ps) next' where
  next_eq := by
    rw [h.next_eq, Note.openings, length_append, length_map, Note.nextRegion_eq]
    omega
  owned_eq := by
    have hsupported : n.isSupported := by simp [Note.isSupported, hposition]
    have howned : (n.lineIn parents next).owned = n.opened next := rfl
    rw [filterMap_cons, h.owned_eq, Note.openings, howned]
    cases n.opened next with
    | none => rfl
    | some r => simp [hsupported]
  nodup hparents hlt := by
    have hlast : ∀ r, n.opened next = some r → r = next ∧ n.nextRegion next = next + 1 := by
      unfold Note.opened Note.nextRegion
      split <;> simp [eq_comm]
    -- the region that the note opens is the next free one, so it is none of those around it
    have hregions : (n.lineIn parents next).regions.Nodup := by
      refine Nodup.append hparents (by cases n.opened next <;> simp) ?_
      intro r hr hopened
      have hnext := (hlast r (by simpa using hopened)).1
      exact absurd (hlt r hr) (by omega)
    have hbelow : ∀ r ∈ (n.lineIn parents next).regions, r < n.nextRegion next := by
      intro r hr
      rcases mem_append.1 hr with hr | hr
      · have hle : next ≤ n.nextRegion next := by rw [Note.nextRegion_eq]; omega
        exact Int.lt_of_lt_of_le (hlt r hr) hle
      · have hnext := hlast r (by simpa using hr)
        omega
    intro p hp
    rcases mem_cons.1 hp with rfl | hp
    · exact hregions
    · exact h.nodup hregions hbelow p hp
  covered_iff r k := by
    have hreaches : n.Reaches file k ↔ n.directive.covers k ∨ ∃ m ∈ notes, m.directive.covers k := by
      simp [Note.Reaches, hreached]
    have hregions : r ∈ (n.lineIn parents next).regions ↔ r ∈ parents ∨ n.opened next = some r := by
      simp [Note.lineIn]
    have hopened : (∃ m, (r, m) ∈ Note.openings next (n :: notes) ∧ m.Reaches file k) ↔
        n.opened next = some r ∧ n.Reaches file k ∨
          ∃ m, (r, m) ∈ Note.openings (n.nextRegion next) notes ∧ m.Reaches file k := by
      simp [Note.openings, or_and_right, exists_or]
    have hfirst : (∃ p ∈ (⟨n, n.lineIn parents next⟩ : Placement) :: ps,
          p.directive.covers k ∧ r ∈ p.line.regions) ↔
        (r ∈ (n.lineIn parents next).regions ∧ n.directive.covers k) ∨
          ∃ p ∈ ps, p.directive.covers k ∧ r ∈ p.line.regions := by
      rw [exists_mem_cons_iff, and_comm]
    rw [hfirst, h.covered_iff r k, hopened, exists_mem_cons_iff, ← or_assoc, ← and_or_left,
      hreaches, hregions, or_and_right, or_assoc]

theorem append {notes notes' : List Note} {ps' : List Placement} {next' next'' : Int}
    (h : Follows file parents next notes ps next') (h' : Follows file parents next' notes' ps' next'') :
    Follows file parents next (notes ++ notes') (ps ++ ps') next'' where
  next_eq := by
    rw [h'.next_eq, h.next_eq, Note.openings_append, length_append]
    omega
  owned_eq := by
    rw [filterMap_append, h.owned_eq, h'.owned_eq, Note.openings_append, filter_append, h.next_eq]
  nodup hparents hlt := by
    have hlt' : ∀ r ∈ parents, r < next' := by
      intro r hr
      have hle : next ≤ next' := by rw [h.next_eq]; omega
      exact Int.lt_of_lt_of_le (hlt r hr) hle
    intro p hp
    rcases mem_append.1 hp with hp | hp
    · exact h.nodup hparents hlt p hp
    · exact h'.nodup hparents hlt' p hp
  covered_iff r k := by
    have hboth := or_congr (h.covered_iff r k) (h'.covered_iff r k)
    rw [or_or_or_comm, ← and_or_left, h.next_eq] at hboth
    simpa only [mem_append, or_and_right, exists_or, Note.openings_append] using hboth

end Follows

namespace Directive

theorem follows_course (file : Int) (asComment : Bool) (parents : List Int) (next : Int)
    (d : Directive) : Follows file parents next ((d.reached file).map fun e => ⟨e, asComment⟩)
      (d.course file asComment parents next).placements (d.course file asComment parents next).next := by
  refine (course_induction (R := fun parents next w c => Follows file parents next
    (w.1.map fun e => (⟨e, asComment⟩ : Note)) c.placements c.next) ?_ ?_ ?_ ?_ ?_ d parents next).2
  · intro parents next e d hlines
    exact .nil
  · intro parents next
    exact .nil
  · intro parents next e d hposition hwalk
    refine .misplaced hposition ?_
    rw [reached, hwalk]
  · intro parents next d w c hposition hwalk ih
    refine .node hposition ?_ ih
    rw [reached, hwalk]
    simp [Function.comp_def]
  · intro parents next w w' c c' ih ih'
    rw [map_append]
    exact ih.append ih'

end Directive

namespace Request

theorem follows_placements (file : Int) (next : Int) {qs : List Request} (hparents : ∀ q ∈ qs, q.parents = []) :
    Follows file [] next (qs.flatMap (notes file)) (placements file next qs).1 (placements file next qs).2 := by
  induction qs generalizing next with
  | nil => exact .nil
  | cons q qs ih =>
    have hfirst := q.directive.follows_course file q.asComment q.parents next
    rw [hparents q mem_cons_self] at hfirst
    rw [placements, course, hparents q mem_cons_self]
    exact hfirst.append (ih _ fun q' hq' => hparents q' (mem_cons_of_mem q hq'))

end Request

/-! ## The regions of the lines of a file -/

namespace Placement

theorem mem_regions_mark (p : Placement) (l : SourceLine) (r : Int) :
    r ∈ (p.mark l).regions ↔ r ∈ l.regions ∨ l.number.any p.directive.covers ∧ r ∈ p.line.regions := by
  unfold mark join
  split <;> simp_all [Classical.or_iff_not_imp_left]

theorem nodup_regions_mark {p : Placement} (hp : p.line.regions.Nodup) (hl : l.regions.Nodup) :
    (p.mark l).regions.Nodup := by
  unfold mark join
  split
  · refine Nodup.append hl (hp.filter _) ?_
    intro r hr hnew
    simp [hr] at hnew
  · exact hl

theorem mem_regions_markAll (ps : List Placement) (l : SourceLine) (r : Int) :
    r ∈ (markAll ps l).regions ↔ r ∈ l.regions ∨ ∃ p ∈ ps, l.number.any p.directive.covers ∧
      r ∈ p.line.regions := by
  unfold markAll
  induction ps generalizing l with
  | nil => simp
  | cons p ps ih =>
    rw [foldl_cons, ih, mem_regions_mark, mark_number, exists_mem_cons_iff, or_assoc]

@[simp]
theorem markAll_owned (ps : List Placement) (l : SourceLine) : (markAll ps l).owned = l.owned := by
  unfold markAll
  induction ps generalizing l with
  | nil => rfl
  | cons p ps ih =>
    rw [foldl_cons, ih]
    unfold mark
    split <;> rfl

end Placement

theorem SourceBuffer.owned_of_mem_ofText {file : Int} {text : String}
    (hl : l ∈ (ofText file text).lines) : l.owned = none ∧ l.regions = [] := by
  obtain ⟨e, -, rfl⟩ := mem_map.1 hl
  exact ⟨rfl, rfl⟩

/-- A region together with the line that opens it. -/
def SourceLine.opening (l : SourceLine) : Option (Int × SourceLine) := l.owned.map (·, l.bare)

theorem SourceLine.opening_closed (l : SourceLine) : l.closed.opening = l.opening := by
  unfold opening
  rw [closed_owned, bare_closed]

theorem Follows.filterMap_opening {file : Int} {parents : List Int} {next next' : Int}
    {notes : List Note} (h : Follows file parents next notes ps next')
    (hbare : ∀ p ∈ ps, p.line.bare = p.toNote.plain.bare) (ls : List SourceLine) :
    ((ps.filter fun p => p.directive.standsAmong ls).map (·.line)).filterMap opening =
      ((Note.openings next notes).filter fun e => e.2.directive.standsAmong ls).map
        fun e => (e.1, e.2.plain.bare) := by
  have hsupported : (Note.openings next notes).filter (fun e => e.2.directive.standsAmong ls) =
      ((Note.openings next notes).filter (·.2.isSupported)).filter fun e => e.2.directive.standsAmong ls := by
    rw [filter_filter]
    apply filter_congr
    intro e _
    cases hstands : e.2.directive.standsAmong ls with
    | false => rfl
    | true =>
      cases htarget : e.2.directive.target with
      | none => simp [Directive.standsAmong, htarget] at hstands
      | some k => rw [Note.isSupported_of_target htarget]; rfl
  rw [hsupported, ← h.owned_eq, filter_filterMap, map_filterMap, filterMap_map, filterMap_filter]
  apply filterMap_congr
  intro p hp
  rw [Function.comp_apply, opening, hbare p hp]
  cases p.line.owned with
  | none => simp
  | some r => cases hstands : p.directive.standsAmong ls <;> simp [Option.filter, hstands]

namespace Placement

theorem mem_flatMap_around {ls : List SourceLine} {m : SourceLine}
    (hm : m ∈ ls.flatMap (around ps)) : (∃ l ∈ ls, m = markAll ps l) ∨ ∃ p ∈ ps, m = p.line := by
  obtain ⟨l, hl, hm⟩ := mem_flatMap.1 hm
  rcases mem_append.1 hm with hm | hm
  · obtain ⟨p, hp, rfl⟩ := mem_map.1 hm
    exact .inr ⟨p, (mem_filter.1 hp).1, rfl⟩
  · rcases mem_cons.1 hm with rfl | hm
    · exact .inl ⟨l, hl, rfl⟩
    · obtain ⟨p, hp, rfl⟩ := mem_map.1 (mem_reverse.1 hm)
      exact .inr ⟨p, (mem_filter.1 hp).1, rfl⟩

end Placement

/-- The regions that are open behind requests with these answers, each with the note that opens
it. -/
def Request.openings (file : Int) (qs : List Request) (answers : List (Result Insertion)) : List (Int × Note) :=
  Note.openings 0 ((Request.lasting qs answers).flatMap (Request.notes file))

namespace Editing

open SourceBuffer

theorem mem_lines_perform {file : Int} {text : String} {qs : List Request}
    (hl : l ∈ (perform qs (ofText file text)).2.lines) :
    let ps := (placements file 0 (lasting qs (perform qs (ofText file text)).1)).1
    (∃ m ∈ (ofText file text).lines, l.closed = (markAll ps m).closed) ∨
      ∃ p ∈ ps, l.closed = p.line.closed := by
  have hlines := map_closed_perform file text qs
  have hclosed : l.closed ∈ (perform qs (ofText file text)).2.lines.map (·.closed) := mem_map_of_mem hl
  rw [hlines] at hclosed
  obtain ⟨m, hm, heq⟩ := mem_map.1 hclosed
  rcases mem_flatMap_around hm with ⟨m', hm', rfl⟩ | ⟨p, hp, rfl⟩
  · exact .inl ⟨m', hm', heq.symm⟩
  · exact .inr ⟨p, hp, heq.symm⟩

section requests

variable (file : Int) (text : String) {qs : List Request} (hparents : ∀ q ∈ qs, q.parents = [])
include hparents

theorem follows_perform :
    let kept := lasting qs (perform qs (ofText file text)).1
    Follows file [] 0 (kept.flatMap (notes file)) (placements file 0 kept).1
      (placements file 0 kept).2 := by
  refine follows_placements file 0 fun q hq => ?_
  obtain ⟨e, he, rfl⟩ := mem_map.1 hq
  exact hparents e.1 (of_mem_zip (mem_filter.1 he).1).1

theorem nextRegion_perform :
    let (answers, b) := perform qs (ofText file text)
    b.nextRegion = (openings file qs answers).length := by
  have hclose := congrArg SourceBuffer.nextRegion (close_perform qs (ofText file text))
  have hfollows := (follows_perform file text hparents).next_eq
  rw [Int.zero_add] at hfollows
  exact Eq.trans hclose hfollows

theorem filterMap_opening_perform :
    let (answers, b) := perform qs (ofText file text)
    (b.lines.filterMap opening).Perm
      (((openings file qs answers).filter
        fun e => e.2.directive.standsIn (Text.feedLines text).length).map fun e => (e.1, e.2.plain.bare)) := by
  have hlines := map_closed_perform file text qs
  have hfollows := follows_perform file text hparents
  simp only at hlines hfollows ⊢
  unfold openings
  generalize lasting qs (perform qs (ofText file text)).1 = kept at hlines hfollows ⊢
  generalize (perform qs (ofText file text)).2 = b at hlines ⊢
  have hclosed : ∀ ls : List SourceLine,
      ls.filterMap opening = (ls.map (·.closed)).filterMap opening := by
    intro ls
    rw [filterMap_map]
    exact filterMap_congr fun l _ => l.opening_closed.symm
  -- the lines of the file open no regions, so only those that are put in remain
  have hfile : ∀ ps : List Placement,
      ((ofText file text).lines.map (markAll ps)).filterMap opening = [] := by
    intro ps
    rw [filterMap_map, filterMap_eq_nil_iff]
    intro l hl
    simp [opening, (owned_of_mem_ofText hl).1]
  have hperm := (flatMap_around_perm (fun p : Placement => p.directive) (·.line)
    (markAll (placements file 0 kept).1) (nodup_numbers_ofText file text)
    (placements file 0 kept).1).filterMap opening
  rw [filterMap_append, hfile,
    hfollows.filterMap_opening fun p hp => bare_of_mem_placements hp] at hperm
  simp only [Directive.standsAmong_ofText] at hperm
  rw [hclosed b.lines, hlines, ← hclosed]
  exact hperm

theorem nodup_owned_perform : ((perform qs (ofText file text)).2.lines.filterMap (·.owned)).Nodup := by
  have hopening := filterMap_opening_perform file text hparents
  have hnumbers := Note.map_fst_openings 0 ((lasting qs (perform qs (ofText file text)).1).flatMap
    (notes file))
  have howned : ∀ ls : List SourceLine,
      ls.filterMap (·.owned) = (ls.filterMap opening).map (·.1) := by
    intro ls
    rw [map_filterMap]
    apply filterMap_congr
    intro l _
    simp [opening, Function.comp_def]
  have hfst : (Prod.fst ∘ fun e : Int × Note => (e.1, e.2.plain.bare)) = Prod.fst := rfl
  rw [howned, (hopening.map _).nodup_iff, map_map, hfst]
  refine (filter_sublist.map _).nodup ?_
  unfold openings
  rw [hnumbers]
  refine nodup_range.map ?_
  intro i j hij
  simp only at hij
  omega

variable (hl : l ∈ (perform qs (ofText file text)).2.lines)
include hl

theorem lt_nextRegion_of_owned {r : Int}
    (hr : l.owned = some r) : r < (perform qs (ofText file text)).2.nextRegion := by
  have hopening := filterMap_opening_perform file text hparents
  have hnext := nextRegion_perform file text hparents
  have hmem : (r, l.bare) ∈ (perform qs (ofText file text)).2.lines.filterMap opening :=
    mem_filterMap.2 ⟨l, hl, by simp [opening, hr]⟩
  obtain ⟨e, he, heq⟩ := mem_map.1 (hopening.mem_iff.1 hmem)
  have hbounds := Note.mem_openings_bounds (mem_filter.1 he).1
  have her : e.1 = r := (Prod.ext_iff.1 heq).1
  unfold openings at hnext
  omega

theorem nodup_regions_perform : l.regions.Nodup := by
  have hnodup := (follows_perform file text hparents).nodup nodup_nil (by simp)
  rcases mem_lines_perform hl with ⟨m, hm, heq⟩ | ⟨p, hp, heq⟩
  · rw [← l.closed_regions, heq, closed_regions]
    exact foldlRecOn _ _ (motive := fun m : SourceLine => m.regions.Nodup) (by simp [(owned_of_mem_ofText hm).2])
      fun _ hnow p hp => nodup_regions_mark (hnodup p hp) hnow
  · rw [← l.closed_regions, heq, closed_regions]
    exact hnodup p hp

theorem mem_regions_perform {k : Int} (hk : l.number = some k) (r : Int) :
    r ∈ l.regions ↔ ∃ n, (r, n) ∈ openings file qs (perform qs (ofText file text)).1 ∧ n.Reaches file k := by
  have hcovered := (follows_perform file text hparents).covered_iff r k
  simp only [not_mem_nil, false_and, false_or] at hcovered
  unfold openings
  rw [← hcovered]
  rw [← l.closed_number] at hk
  rw [← l.closed_regions]
  rcases mem_lines_perform hl with ⟨m, hm, heq⟩ | ⟨p, hp, heq⟩
  · rw [heq, closed_number, markAll_number] at hk
    rw [heq, closed_regions, mem_regions_markAll, (owned_of_mem_ofText hm).2, hk]
    simp
  · rw [heq, closed_number, number_of_mem_placements hp] at hk
    cases hk

end requests

/-- The regions behind requests outside of all regions, whatever the checks answer. No two lines
open the same region, and each opens one below the next free one; no line belongs to a region twice;
and a line of the file belongs to the regions whose directive, or one that is come to below it,
covers the line. The regions are numbered in the order of the notes that stay, and each is opened by
the line of its note, if that stands at a line of the file. -/
theorem regions_perform (file : Int) (text : String) {qs : List Request}
    (hparents : ∀ q ∈ qs, q.parents = []) : let (answers, b) := perform qs (ofText file text)
    let opened := Request.openings file qs answers
    (b.lines.filterMap (·.owned)).Nodup ∧
      (∀ l ∈ b.lines, ∀ r, l.owned = some r → r < b.nextRegion) ∧
      (∀ l ∈ b.lines, l.regions.Nodup) ∧
      (∀ l ∈ b.lines, ∀ k, l.number = some k → ∀ r,
        r ∈ l.regions ↔ ∃ n, (r, n) ∈ opened ∧ n.Reaches file k) ∧
      b.nextRegion = opened.length ∧
      (opened.map (·.1) = (List.range opened.length).map fun i : Nat => (i : Int)) ∧
      (b.lines.filterMap SourceLine.opening).Perm
        ((opened.filter fun e => e.2.directive.standsIn (Text.feedLines text).length).map
          fun e => (e.1, e.2.plain.bare)) := by
  have hnumbers := Note.map_fst_openings 0
    ((lasting qs (perform qs (ofText file text)).1).flatMap (notes file))
  simp only [Int.zero_add] at hnumbers
  exact ⟨nodup_owned_perform file text hparents,
    fun l hl r hr => lt_nextRegion_of_owned file text hparents hl hr,
    fun l hl => nodup_regions_perform file text hparents hl,
    fun l hl k hk r => mem_regions_perform file text hparents hl hk r,
    nextRegion_perform file text hparents, hnumbers, filterMap_opening_perform file text hparents⟩

/-- A directive that is undone, and then one with a child: the region of the first is given
again. -/
theorem regions_perform_again :
    let inner : Directive :=
      { text := "inner", file := some 1, first := some 2, last := some 3, position := .afterEnd }
    let outer : Directive :=
      { text := "outer", file := some 1, first := some 1, last := some 2, children := [inner] }
    let qs : List Request :=
      [{ directive := outer, check := some fun _ => .ok false },
        { directive := outer, check := some fun _ => .ok true }]
    let (answers, b) := perform qs (ofText 1 "a\nb\nc")
    (∀ q ∈ qs, q.parents = []) ∧ answers.map wasUndone = [true, false] ∧ b.nextRegion = 1 ∧
      ∀ l ∈ b.lines, ∀ k, l.number = some k → ∀ r, r ∈ l.regions ↔ r = 0 ∧ Note.Reaches 1 k ⟨outer, false⟩ := by
  intro inner outer qs
  have hparents : ∀ q ∈ qs, q.parents = [] := by simp [qs]
  have hrun := regions_perform 1 "a\nb\nc" hparents
  simp only at hrun ⊢
  obtain ⟨-, -, -, hregions, hnext, -⟩ := hrun
  have hopened : openings 1 qs (perform qs (ofText 1 "a\nb\nc")).1 = [(0, ⟨outer, false⟩)] := by rfl
  rw [hopened] at hregions hnext
  refine ⟨hparents, by decide, hnext, ?_⟩
  intro l hl k hk r
  rw [hregions l hl k hk r]
  simp

end Editing

end ParallelPatterns
