import Mathlib.Data.List.Induction
import ParallelPatterns.Proofs.PipelineRecords

/-!
# Reading the clauses of a directive

The directive of a loop lists the variables of each class in a clause, and the reductions in one
clause for each operator. Names without brackets, commas, colons and blanks are read back from its
text, so the text tells the classes.
-/

namespace ParallelPatterns

open List Text

/-- A text without the signs that divide a directive. -/
def IsPlain (s : String) : Prop := ∀ x ∈ [',', '(', ')', ':', ' '], x ∉ s.toList

/-- A clause: its keyword, and the names in its brackets, with the operator of a reduction in a
group before them. -/
structure DataClause where
  keyword : String
  groups : List (List String)
  deriving DecidableEq

namespace DataClause

variable (c : DataClause)

def inside : String := ":".intercalate (c.groups.map (",".intercalate ·))

def text : String := c.keyword ++ "(" ++ (c.inside ++ ")" ++ "")

def ofWord? (word : String) : Option DataClause :=
  match split "(" word with
  | [keyword, rest] => some ⟨keyword, (split ":" ((split ")" rest).headD "")).map (split ",")⟩
  | _ => none

structure IsProper : Prop where
  keyword : IsPlain c.keyword
  filled : c.groups ≠ []
  groups : ∀ names ∈ c.groups, names ≠ [] ∧ ∀ name ∈ names, IsPlain name

variable {c} {x : Char} (h : c.IsProper)
include h

theorem IsProper.notMem_group (hx : x ∈ ['(', ')', ':', ' ']) :
    ∀ part ∈ c.groups.map (",".intercalate ·), x ∉ part.toList := by
  intro part hpart
  obtain ⟨names, hnames, rfl⟩ := mem_map.1 hpart
  have hcomma : x ∉ [','] := by grind
  exact notMem_intercalate hcomma fun name hname => (h.groups names hnames).2 name hname x (mem_cons_of_mem _ hx)

theorem IsProper.notMem_inside (hx : x ∈ ['(', ')', ' ']) : x ∉ c.inside.toList := by
  have hcolon : x ∉ [':'] := by grind
  exact notMem_intercalate hcolon (h.notMem_group (by grind))

theorem IsProper.ofWord?_text : ofWord? c.text = some c := by
  have hopen : '(' ∉ (c.inside ++ ")" ++ "").toList := by simpa using h.notMem_inside (by simp)
  have hword : split "(" c.text = [c.keyword, c.inside ++ ")" ++ ""] := by
    rw [text, split_cons rfl (h.keyword '(' (by simp)), split_eq_singleton rfl hopen]
  have hclose : split ")" (c.inside ++ ")" ++ "") = c.inside :: split ")" "" :=
    split_cons (c := ')') rfl (h.notMem_inside (by simp)) ""
  have hgroups : split ":" c.inside = c.groups.map (",".intercalate ·) :=
    split_intercalate (c := ':') rfl (by simpa using h.filled) (h.notMem_group (by simp))
  have hnames : (c.groups.map (",".intercalate ·)).map (split ",") = c.groups := by
    rw [map_map]
    refine (map_congr_left fun names hnames => ?_).trans (map_id _)
    obtain ⟨hne, hplain⟩ := h.groups names hnames
    exact split_intercalate (c := ',') rfl hne fun name hname => hplain name hname _ (by simp)
  simp only [ofWord?, hword, hclose, headD_cons, hgroups, hnames]

end DataClause

open DataClause

/-- The clauses in the text of a directive. -/
def Directive.dataClauses (d : Directive) : List DataClause := (split " " d.text).filterMap ofWord?

theorem filterMap_ofWord? {cs : List DataClause} (hcs : ∀ c ∈ cs, c.IsProper) :
    (split " " (String.join (cs.map (·.text ++ " ")))).filterMap ofWord? = cs := by
  induction cs with
  | nil => decide +kernel
  | cons c cs ih =>
    obtain ⟨hc, hcs⟩ := forall_mem_cons.1 hcs
    have hword : ' ' ∉ c.text.toList := by
      simpa [DataClause.text, hc.keyword ' ' (by simp)] using hc.notMem_inside (x := ' ') (by simp)
    rw [map_cons, String.join_cons, split_cons rfl hword, filterMap_cons, hc.ofWord?_text]
    simp only [ih hcs]

namespace Table

variable {κ α : Type} [BEq κ] [LawfulBEq κ]

/-- A table in which values are filed under their keys, one after the other. -/
theorem entries_file (es : List (κ × α)) :
    (es.foldl (fun t e => t.update e.1 [] (· ++ [e.2])) (∅ : Table κ (List α))).entries =
      (distinct (es.map (·.1))).map fun k => (k, (es.filter (·.1 == k)).map (·.2)) := by
  obtain ⟨t, ht, hkeys, hget⟩ : ∃ t, es.foldl (fun t e => t.update e.1 [] (· ++ [e.2])) (∅ : Table κ (List α)) = t ∧
      t.keys = distinct (es.map (·.1)) ∧ ∀ k, t.getD k [] = (es.filter (·.1 == k)).map (·.2) := by
    induction es using reverseRecOn with
    | nil => exact ⟨∅, rfl, rfl, fun _ => rfl⟩
    | append_singleton es e ih =>
      obtain ⟨t, ht, hkeys, hget⟩ := ih
      refine ⟨t.update e.1 [] (· ++ [e.2]), by rw [foldl_append, ht]; rfl, ?_, fun k => ?_⟩
      · rw [update, keys_insert, hkeys, map_append, distinct, distinct, addAll, addAll, foldl_append]
        rfl
      · rw [getD_update, hget, filter_append]
        by_cases hk : e.1 = k <;> simp [hk]
  rw [ht, ← hkeys, keys, List.map_map]
  refine ((map_congr_left fun e he => ?_).trans (List.map_id _)).symm
  rw [Function.comp_apply, ← hget, getD, get?_of_mem (hkeys ▸ nodup_distinct _) he]
  rfl

end Table

namespace PatternRecord

/-- A clause for each class with names, and one for each operator of a reduction, where it first
occurs. -/
def clausesOf (names : String → List String) (reductions : List (String × String)) : List DataClause :=
  (loopClasses.flatMap fun k => if names k.1 = [] then [] else [⟨k.2, [names k.1]⟩]) ++
    (distinct (reductions.map (·.1))).map fun op =>
      ⟨"reduction", [[op], (reductions.filter (·.1 == op)).map (·.2)]⟩

variable {values : Json} {names : String → List String} {reductions : List (String × String)}
  (hplain : ∀ r ∈ reductions, IsPlain r.1 ∧ IsPlain r.2)
include hplain

theorem isProper_clausesOf (hnames : ∀ k ∈ loopClasses, ∀ name ∈ names k.1, IsPlain name) :
    ∀ c ∈ clausesOf names reductions, c.IsProper := by
  intro c hc
  rcases mem_append.1 hc with hc | hc
  · obtain ⟨k, hk, hc⟩ := mem_flatMap.1 hc
    split at hc
    · cases hc
    · next hne =>
      obtain rfl := mem_singleton.1 hc
      have hkeyword : ∀ k ∈ loopClasses, IsPlain k.2 := by simp [loopClasses, IsPlain]
      exact ⟨hkeyword k hk, by simp, by simpa using ⟨hne, hnames k hk⟩⟩
  · obtain ⟨op, hop, rfl⟩ := mem_map.1 hc
    obtain ⟨r, hr, rfl⟩ := mem_map.1 (mem_distinct.1 hop)
    have hvars : (reductions.filter (·.1 == r.1)).map (·.2) ≠ [] :=
      ne_nil_of_mem (mem_map_of_mem (mem_filter.2 ⟨hr, beq_self_eq_true r.1⟩))
    have hnames : ∀ name ∈ (reductions.filter (·.1 == r.1)).map (·.2), IsPlain name := by
      intro name hname
      obtain ⟨r', hr', rfl⟩ := mem_map.1 hname
      exact (hplain r' (mem_filter.1 hr').1).2
    refine ⟨by simp [IsPlain], by simp, forall_mem_cons.2 ⟨⟨by simp, ?_⟩, forall_mem_singleton.2 ⟨hvars, hnames⟩⟩⟩
    exact forall_mem_singleton.2 (hplain r hr).1

variable (hreductions : values.member "reduction" = .ok (.strings (reductions.map fun r => r.1 ++ ":" ++ r.2)))
include hreductions

theorem reductionsOf_plain :
    reductionsOf values = .ok (reductions.foldl (fun t r => t.update r.1 [] (· ++ [r.2])) ∅) := by
  rw [reductionsOf_eq hreductions, map_map]
  clear hreductions
  generalize (∅ : Table String (List String)) = t
  induction reductions generalizing t with
  | nil => rfl
  | cons r reductions ih =>
    obtain ⟨⟨hop, hname⟩, hplain⟩ := forall_mem_cons.1 hplain
    have hparts : (Json.str (r.1 ++ ":" ++ r.2)).parts = .ok [r.1, r.2] := by
      rw [Json.parts, split_cons (c := ':') rfl (hop _ (by simp)),
        split_eq_singleton (c := ':') rfl (hname _ (by simp))]
    obtain ⟨hfirst, hsecond⟩ := Json.part_of_parts hparts
    rw [map_cons, foldlM_cons, Function.comp_apply, hfirst, hsecond]
    exact ih hplain _

theorem loopClauses_eq (hnames : ∀ k ∈ loopClasses, values.member k.1 = .ok (.strings (names k.1))) :
    loopClauses values = .ok (String.join ((clausesOf names reductions).map (·.text ++ " "))) := by
  have hclass : ∀ k ∈ loopClasses, clause values k.1 (k.2 ++ "(") = .ok (String.join
      ((if names k.1 = [] then [] else [DataClause.mk k.2 [names k.1]]).map (·.text ++ " "))) := by
    intro k hk
    rw [clause_strings (hnames k hk)]
    split <;> simp [← String.toList_inj, DataClause.text, inside]
  have hreduction : ∀ op ns, "reduction(" ++ op ++ ":" ++ ",".intercalate ns ++ ") " =
      (DataClause.mk "reduction" [[op], ns]).text ++ " " := by
    simp [← String.toList_inj, DataClause.text, inside]
  simp only [loopClasses, forall_mem_cons, String.reduceAppend] at hclass
  obtain ⟨h₁, h₂, h₃, h₄, -⟩ := hclass
  rw [loopClauses, reductionClauses, reductionsOf_plain hplain hreductions]
  simp only [clauses, loopClasses, map_cons, map_nil, mapM_cons, mapM_nil, String.reduceAppend, h₁,
    h₂, h₃, h₄, bind, Except.bind, pure, Except.pure, Table.entries_file, hreduction]
  simp [clausesOf, loopClasses, String.append_assoc, Function.comp_def]

omit hplain hreductions in
/-- The clauses of a loop without dependences, or of a reduction, are read back from its
directive. -/
theorem dataClauses_of_loop {p : PatternRecord} (htype : p.type = "do_all" ∨ p.type = "reduction")
    (hnames : ∀ k ∈ loopClasses, p.values.member k.1 = .ok (.strings (names k.1)))
    (hreductions : p.values.member "reduction" = .ok (.strings (reductions.map fun r => r.1 ++ ":" ++ r.2)))
    (hclasses : ∀ k ∈ loopClasses, ∀ name ∈ names k.1, IsPlain name)
    (hplain : ∀ r ∈ reductions, IsPlain r.1 ∧ IsPlain r.2) :
    ∃ d, p.directives = .ok [d] ∧ d.dataClauses = clausesOf names reductions := by
  have hloop : p.directives = (do return [← p.loopDirective]) := by
    rcases htype with h | h <;> simp only [directives, h]
  rw [hloop, loopDirective, loopClauses_eq hplain hreductions hnames]
  refine ⟨_, rfl, ?_⟩
  have hstart : (split " " "#pragma omp parallel for").filterMap ofWord? = [] := by decide +kernel
  have hspace : "#pragma omp parallel for " = "#pragma omp parallel for" ++ " " := rfl
  rw [Directive.dataClauses, hspace, split_append rfl, filterMap_append, hstart,
    filterMap_ofWord? (isProper_clausesOf hplain hclasses), nil_append]

omit hplain hreductions in
/-- Three reductions with two operators give two clauses. -/
theorem dataClauses_of_loop_sum :
    let names (key : String) := if key = "private" then ["i", "j"] else []
    let reductions := [("+", "x"), ("max", "y"), ("+", "z")]
    let values := (loopClasses.map fun k => (k.1, Json.strings (names k.1))) ++
      [("reduction", .strings ["+:x", "max:y", "+:z"])]
    clausesOf names reductions =
        [⟨"private", [["i", "j"]]⟩, ⟨"reduction", [["+"], ["x", "z"]]⟩, ⟨"reduction", [["max"], ["y"]]⟩] ∧
      ∃ d, directives ⟨"reduction", .obj values, 1, 2, 5⟩ = .ok [d] ∧
        d.dataClauses = clausesOf names reductions := by
  refine ⟨by decide +kernel, dataClauses_of_loop (.inr rfl) ?_ rfl (by simp [loopClasses, IsPlain])
    (by simp [IsPlain])⟩
  simp only [loopClasses, forall_mem_cons]
  exact ⟨rfl, rfl, rfl, rfl, nofun⟩

end PatternRecord

end ParallelPatterns
