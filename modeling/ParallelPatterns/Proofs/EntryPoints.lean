import Mathlib.Data.Option.Basic
import ParallelPatterns.Proofs.GeneratedSources
import ParallelPatterns.Proofs.JsonText

/-!
# The two entry points of the source generator

Directives are generated from stored texts of patterns, or from patterns, whose texts are then
taken. A written pattern can always be decoded, and once patterns are decoded no later failure is
one of decoding; so from texts the generator never fails for that reason. From patterns it does, as
soon as there is one: it takes the characters of a text for texts, and a text begins with a brace.
The two agree if there are no patterns, and never else.
-/

namespace ParallelPatterns

open List PatternRecord Json

variable {texts : Table String (List String)}

/-! ## Computations on decoded objects -/

/-- The computation does not fail for an object that cannot be decoded. -/
def Decoded {α : Type} (x : Result α) : Prop := x ≠ .error .malformedObject

section Decoded

variable {α β : Type}

@[simp]
theorem decoded_ok (a : α) : Decoded (.ok a) := by
  simp [Decoded]

@[simp]
theorem decoded_pure (a : α) : Decoded (pure a) := decoded_ok a

@[simp]
theorem decoded_error_iff (e : Failure) : Decoded (.error e : Result α) ↔ e ≠ .malformedObject := by
  simp [Decoded]

@[simp]
theorem decoded_throw_iff (e : Failure) : Decoded (throw e : Result α) ↔ e ≠ .malformedObject := decoded_error_iff e

variable {x : Result α}

@[simp]
theorem decoded_bind_iff (hx : Decoded x) {k : α → Result β} :
    Decoded (x >>= k) ↔ ∀ a, x = .ok a → Decoded (k a) := by
  constructor
  · rintro h a rfl
    exact h
  · intro h
    cases x with
    | ok a => exact h a rfl
    | error e => exact fun heq => hx (congrArg _ (Except.error.inj heq))

@[simp]
theorem decoded_map_iff {f : α → β} : Decoded (f <$> x) ↔ Decoded x := by
  cases x with
  | ok a => exact iff_of_true (decoded_ok (f a)) (decoded_ok a)
  | error e => exact (decoded_error_iff e).trans (decoded_error_iff e).symm

@[simp]
theorem decoded_ite_iff {c : Prop} [Decidable c] {y : Result α} :
    Decoded (if c then x else y) ↔ (c → Decoded x) ∧ (¬c → Decoded y) := by
  by_cases hc : c <;> simp [hc]

@[simp]
theorem Decoded.mapM {f : α → Result β} {xs : List α} (h : ∀ x ∈ xs, Decoded (f x)) : Decoded (xs.mapM f) := by
  induction xs with
  | nil => exact decoded_pure []
  | cons x xs ih =>
    rw [mapM_cons, decoded_bind_iff (h x mem_cons_self)]
    intro y _
    rw [decoded_bind_iff (ih fun x' hx' => h x' (mem_cons_of_mem x hx'))]
    exact fun ys _ => decoded_pure _

@[simp]
theorem Decoded.foldlM {f : β → α → Result β} {xs : List α} (h : ∀ b, ∀ x ∈ xs, Decoded (f b x))
    (b : β) : Decoded (xs.foldlM f b) := by
  induction xs generalizing b with
  | nil => exact decoded_pure b
  | cons x xs ih =>
    rw [foldlM_cons, decoded_bind_iff (h b x mem_cons_self)]
    exact fun b' _ => ih (fun b x' hx' => h b x' (mem_cons_of_mem x hx')) b'

end Decoded

open Decoded

namespace Json

variable (j : Json)

@[simp]
theorem decoded_member (key : String) : Decoded (j.member key) := by
  unfold member
  split
  · split <;> simp
  · simp

@[simp]
theorem decoded_entries : Decoded j.entries := by
  cases j <;> simp [entries]

@[simp]
theorem decoded_text : Decoded j.text := by
  cases j <;> simp [text]

@[simp]
theorem decoded_joined (sep : String) (j : Json) : Decoded (j.joined sep) := by
  simp [joined]

@[simp]
theorem decoded_part (i : Nat) : Decoded (j.part i) := by
  have hparts : Decoded j.parts := by
    cases j <;> simp [parts]
  unfold part
  rw [decoded_bind_iff hparts]
  intro ps _
  split <;> simp

@[simp]
theorem decoded_number (s : String) : Decoded (number s) := by
  unfold number
  split <;> simp

@[simp]
theorem decoded_fileNumber : Decoded j.fileNumber := by
  simp [fileNumber]

@[simp]
theorem decoded_lineNumber : Decoded j.lineNumber := by
  simp [lineNumber]

@[simp]
theorem decoded_exceedsOne : Decoded j.exceedsOne := by
  cases j <;> simp [exceedsOne]

@[simp]
theorem decoded_holdsColon : Decoded j.holdsColon := by
  cases j <;> simp [holdsColon]

@[simp]
theorem decoded_tuple (n : Nat) (j : Json) : Decoded (j.tuple n) := by
  simp [tuple]

end Json

namespace PatternRecord

@[simp]
theorem decoded_ofJson (type : String) (values : Json) : Decoded (ofJson type values) := by
  simp [ofJson]

variable (p : PatternRecord) (values : Json)

@[simp]
theorem decoded_clause (key before : String) : Decoded (clause values key before) := by
  simp [clause]

@[simp]
theorem decoded_reductionClauses : Decoded (reductionClauses values) := by
  simp [reductionClauses, reductionsOf]

@[simp]
theorem decoded_clauses (classes : List (String × String)) : Decoded (clauses values classes) := by
  simp [clauses]

@[simp]
theorem decoded_listed {α : Type} {read : Json → Result α} (h : ∀ j, Decoded (read j))
    (key : String) : Decoded (listed values key read) := by
  simp [listed, h]

@[simp]
theorem decoded_require (keys : List String) : Decoded (require values keys) := by
  simp [require]

@[simp]
theorem decoded_meaning {α : Type} {refuse : String → Failure} (h : ∀ text, refuse text ≠ .malformedObject)
    (meanings : List (Int × α)) (value : Json) : Decoded (meaning meanings refuse value) := by
  unfold meaning
  cases (meanings.find? fun m => value.isNumber m.1).map (·.2) <;> simp [h]

@[simp]
theorem decoded_constructDirective (loop construct : Json) (first last : Int) (withMaps : Bool) :
    Decoded (p.constructDirective loop construct first last withMaps) := by
  have hclause : ∀ c, Decoded (constructClause withMaps c) := by
    intro c
    unfold constructClause
    cases withMaps <;> cases c.text? <;> simp
  simp [constructDirective, constructPlace, constructPosition, hclause]

@[simp]
theorem decoded_regionDirectives (region : Json) (withMaps : Bool) :
    Decoded (p.regionDirectives region withMaps) := by
  simp [regionDirectives, acceleratedLoop]

@[simp]
theorem decoded_unitsRemark (source sink : Json) : Decoded (unitsRemark source sink) := by
  simp [unitsRemark]

theorem decoded_entryDirective {text : List Json → Result String} {position : List Json → Result DirectivePosition}
    (htext : ∀ xs, Decoded (text xs)) (hposition : ∀ xs, Decoded (position xs)) (count place : Nat)
    (entry : Json) : Decoded (p.entryDirective count place text position entry) := by
  simp [entryDirective, lineDirective, htext, hposition]

theorem decoded_combinedDirectives : Decoded p.combinedDirectives := by
  have hpoint : ∀ start word, (∀ kind, Decoded (word kind)) → ∀ entry,
      Decoded (p.entryDirective 6 4 (pointText start word) pointPosition entry) := fun start word hword =>
    p.decoded_entryDirective (fun xs => by unfold pointText; split <;> simp [hword]) (by simp [pointPosition]) 6 4
  have hentry := hpoint "#pragma omp target enter data " entryWord (by simp [entryWord])
  have hexit := hpoint "#pragma omp target exit data " exitWord (by simp [exitWord])
  have hdepend : ∀ word entry, Decoded (p.entryDirective 3 2 (dependText word)
    (fun _ => return .beforeStart) entry) :=
    fun word => p.decoded_entryDirective (fun xs => by unfold dependText; split <;> simp) (by simp) 3 2
  have hupdate : ∀ entry, Decoded (p.entryDirective 5 4 updateText (fun _ => return .beforeStart) entry) :=
    p.decoded_entryDirective (fun xs => by unfold updateText; split <;> simp) (by simp) 5 4
  simp [combinedDirectives, hentry, hexit, hdepend, hupdate]

theorem decoded_directives : Decoded p.directives := by
  unfold directives
  split
  · simp [loopDirective, loopClauses]
  · simp [loopDirective, loopClauses]
  · simp [stageDirective]
  · simp
  · exact p.decoded_combinedDirectives
  · simp

end PatternRecord

/-! ## Sources -/

theorem Directive.decoded_course (file : Int) (asComment : Bool) (parents : List Int) (next : Int)
    (d : Directive) : Decoded (d.course file asComment parents next).result := by
  refine (course_induction (R := fun _ _ _ c => Decoded c.result) ?_ ?_ ?_ ?_ ?_ d parents next).2
  · intro parents next e d hlines
    have hdecoded : Decoded (lines d.first d.last d.file) := by
      unfold lines
      split
      · split <;> simp
      · simp
    rw [hlines] at hdecoded
    simpa using hdecoded
  · intro parents next
    simp
  · intro parents next e d hposition hwalk
    cases hp : d.position with
    | unsupported literal =>
      simp only [hp, DirectivePosition.failure?, Option.some.injEq] at hposition
      simp [← hposition]
    | _ => simp [hp, DirectivePosition.failure?] at hposition
  · intro parents next d w c hposition hwalk ih
    exact ih
  · intro parents next w w' c c' ih ih'
    exact ih'

/-- The check of a source does not fail for an object that cannot be decoded. -/
def SourceCheck.IsDecoded (check : SourceCheck) : Prop := ∀ n path source, Decoded (check n path source)

theorem Editing.decoded_insert {check : Option (String → Result Bool)}
    (hcheck : ∀ c ∈ check, ∀ source, Decoded (c source))
    (asComment : Bool) (parents : List Int) (d : Directive) (b : SourceBuffer) :
    Decoded ((insert check asComment parents d).run.run b).1 := by
  have hcourse := d.decoded_course b.file asComment parents b.nextRegion
  rw [run_insert, run_add_and_addAll.1]
  simp only
  cases hresult : (d.course b.file asComment parents b.nextRegion).result with
  | error e =>
    rw [hresult] at hcourse
    simpa [checked] using hcourse
  | ok _ =>
    cases check with
    | none => simp [checked]
    | some c =>
      unfold checked
      simp only
      split
      · simp
      · have hsource := hcheck c rfl (b.grow (d.course b.file asComment parents b.nextRegion)).close.text
        split
        · rename_i hc
          rw [hc] at hsource
          simpa using hsource
        · simp
        · simp

namespace Generation

variable {files : Files} {paths : Table Int String} {check : Option SourceCheck}

theorem decoded_insertInto (hcheck : ∀ c ∈ check, c.IsDecoded) (path : String) (d : Directive)
    (s : Generation) (b : SourceBuffer) : Decoded (insertInto check path d s b) := by
  have hrun : ∀ n asComment b, Decoded
      ((Editing.insert (check.map fun c => c n path) asComment [] d).run.run b).1 := by
    intro n asComment b
    refine Editing.decoded_insert (fun c hc source => ?_) asComment [] d b
    obtain ⟨c', hc', rfl⟩ := Option.mem_map.1 hc
    exact hcheck c' hc' n path source
  have hfirst := hrun s.checks false b
  unfold insertInto
  simp only
  cases hr : (Editing.insert (check.map fun c => c s.checks path) false [] d).run.run b with
  | mk r b₁ =>
    rw [hr] at hfirst
    have hsecond := hrun (s.checks + 1) true b₁
    rw [decoded_bind_iff hfirst]
    intro i _
    rw [decoded_ite_iff]
    refine ⟨fun _ => decoded_pure _, fun _ => ?_⟩
    cases hr' : (Editing.insert (check.map fun c => c (s.checks + 1) path) true [] d).run.run b₁ with
    | mk r' b₂ =>
      rw [hr'] at hsecond
      rw [decoded_bind_iff hsecond]
      exact fun _ _ => decoded_pure _

theorem decoded_addPattern (hcheck : ∀ c ∈ check, c.IsDecoded) (s : Generation)
    (p : PatternRecord) : Decoded (addPattern files paths check s p) := by
  have hread : ∀ path, Decoded (files.read path) := by
    intro path
    unfold Files.read
    split <;> simp
  have hinsert : ∀ path (ds : List Directive) c,
    Decoded (ds.foldlM (fun (b, s) d => insertInto check path d s b) c) :=
    fun path ds c => foldlM (fun c d _ => decoded_insertInto hcheck path d c.2 c.1) c
  unfold addPattern
  cases paths.get? p.file with
  | none => simp
  | some path =>
    cases s.buffers.get? p.file with
    | some b => simp [p.decoded_directives, hinsert]
    | none => simp [p.decoded_directives, hread, hinsert]

end Generation

variable (files : Files) (paths : Table Int String) {check : Option SourceCheck}

theorem decoded_generateSources (hcheck : ∀ c ∈ check, c.IsDecoded)
    (htexts : ∀ e ∈ texts.entries, ∀ t ∈ e.2, (parse? t).isSome) :
    Decoded (generateSources files paths check texts) := by
  have hofText : ∀ type t, (parse? t).isSome → Decoded (ofText type t) := by
    intro type t ht
    unfold ofText
    cases hj : parse? t with
    | none =>
      rw [hj] at ht
      cases ht
    | some j => exact decoded_ofJson type j
  have hofTexts : Decoded (ofTexts texts) := by
    unfold ofTexts
    rw [decoded_bind_iff]
    · exact fun _ _ => decoded_pure _
    · exact mapM fun e he => mapM fun t ht => hofText e.1 t (htexts e he t ht)
  unfold generateSources
  rw [decoded_bind_iff hofTexts]
  intro patterns _
  rw [decoded_bind_iff (foldlM (fun s p _ => Generation.decoded_addPattern hcheck s p) {})]
  exact fun s _ => decoded_pure _

/-! ## Patterns given as texts -/

namespace Table

variable {κ ν : Type} [BEq κ]

variable {P : ν → Prop} {es : List (κ × ν)}

theorem forall_insert {t : Table κ ν} (ht : ∀ e ∈ t.entries, P e.2) (k : κ) {v : ν} (hv : P v) :
    ∀ e ∈ (t.insert k v).entries, P e.2 := by
  obtain ⟨es⟩ := t
  show ∀ e ∈ insertEntry k v es, P e.2
  induction es with
  | nil => simpa [insertEntry] using hv
  | cons d es ih =>
    rw [forall_mem_cons] at ht
    unfold insertEntry
    split
    · exact forall_mem_cons.2 ⟨hv, ht.2⟩
    · exact forall_mem_cons.2 ⟨ht.1, ih ht.2⟩

theorem entries_insert_ne_nil (t : Table κ ν) (k : κ) (v : ν) : (t.insert k v).entries ≠ [] := by
  obtain ⟨es⟩ := t
  cases es with
  | nil => exact cons_ne_nil _ _
  | cons d es =>
    show insertEntry k v (d :: es) ≠ []
    unfold insertEntry
    split <;> exact cons_ne_nil _ _

theorem forall_ofList (h : ∀ e ∈ es, P e.2) : ∀ e ∈ (ofList es).entries, P e.2 :=
  foldlRecOn es (motive := fun t : Table κ ν => ∀ e ∈ t.entries, P e.2) _ (fun _ he => absurd he not_mem_nil)
    fun _ ht e he => forall_insert ht e.1 (h e he)

theorem entries_ofList_ne_nil (h : es ≠ []) : (ofList es).entries ≠ [] := by
  cases es with
  | nil => exact absurd rfl h
  | cons d es =>
    exact foldlRecOn es (motive := fun t : Table κ ν => t.entries ≠ []) _ (entries_insert_ne_nil _ _ _)
      fun t _ e _ => entries_insert_ne_nil t e.1 e.2

end Table

theorem begins_of_mem_texts (patterns : Table String (List (List (String × Json)))) :
    ∀ e ∈ (patterns.map fun _ ps => ps.map outlineText).entries, ∀ t ∈ e.2, ∃ cs, t.toList = '\x7b' :: cs := by
  intro e he t ht
  obtain ⟨e, -, rfl⟩ := mem_map.1 he
  obtain ⟨attributes, -, rfl⟩ := mem_map.1 ht
  rw [outlineText, indented]
  cases attributes with
  | nil => exact ⟨_, by rw [write]; rfl⟩
  | cons m ms => exact ⟨_, toList_write_obj ..⟩

theorem ofTexts_eq (texts : Table String (List String)) :
    ofTexts texts = flatten <$> texts.entries.mapM fun e => e.2.mapM (ofText e.1) := rfl

theorem ofTexts_eq_error (hne : texts.entries ≠ [])
    (htexts : ∀ e ∈ texts.entries, ∃ ts, e.2 = String.singleton '\x7b' :: ts) :
    ofTexts texts = .error .malformedObject := by
  rw [ofTexts_eq]
  cases hes : texts.entries with
  | nil => exact absurd hes hne
  | cons e es =>
    obtain ⟨ts, hts⟩ := htexts e (by simp [hes])
    rw [mapM_cons, hts]
    rfl

theorem generateSources_of_forall_nil (check : Option SourceCheck)
    (htexts : ∀ e ∈ texts.entries, e.2 = []) : generateSources files paths check texts = .ok ∅ := by
  have hofTexts : ofTexts texts = .ok [] := by
    rw [ofTexts_eq]
    have hempty : ∀ e ∈ texts.entries, ∃ rs, e.2.mapM (ofText e.1) = .ok rs := fun e he =>
      ⟨[], by rw [htexts e he]; rfl⟩
    obtain ⟨records, hrecords, hmem⟩ := exists_mapM_eq_ok hempty
    have hnil : records.flatten = [] := by
      rw [flatten_eq_nil_iff]
      intro rs hrs
      obtain ⟨e, he, hrs⟩ := (hmem rs).1 hrs
      rw [htexts e he] at hrs
      cases hrs
      rfl
    rw [hrecords]
    exact congrArg Except.ok hnil
  unfold generateSources
  rw [hofTexts]
  rfl

def lastCharacters (texts : Table String (List String)) : Table String (List String) :=
  .ofList (texts.entries.filterMap fun e => e.2.getLast?.map fun t => (e.1, t.toList.map String.singleton))

theorem generateFromPatterns_eq (check : Option SourceCheck) (texts : Table String (List String)) :
    generateFromPatterns files paths check texts = generateSources files paths check (lastCharacters texts) := rfl

theorem generateFromPatterns_eq_error {files : Files} {paths : Table Int String}
    (htexts : ∀ e ∈ texts.entries, ∀ t ∈ e.2, ∃ cs, t.toList = '\x7b' :: cs)
    (hne : ∃ e ∈ texts.entries, e.2 ≠ []) :
    generateFromPatterns files paths check texts = .error .malformedObject := by
  have herror : ofTexts (lastCharacters texts) = .error .malformedObject := by
    refine ofTexts_eq_error (Table.entries_ofList_ne_nil ?_)
      (Table.forall_ofList (P := fun ts : List String => ∃ r, ts = String.singleton '\x7b' :: r) fun e he => ?_)
    · obtain ⟨e, he, hlast⟩ := hne
      rw [Ne, filterMap_eq_nil_iff]
      intro hnone
      have h := hnone e he
      simp [hlast] at h
    · obtain ⟨d, hd, hlast⟩ := mem_filterMap.1 he
      obtain ⟨t, ht, rfl⟩ := Option.map_eq_some_iff.1 hlast
      obtain ⟨cs, hcs⟩ := htexts d hd t (mem_of_getLast? ht)
      exact ⟨cs.map String.singleton, by simp [hcs]⟩
  rw [generateFromPatterns_eq, generateSources, herror]
  rfl

/-- The two entry points agree on no patterns only. Given patterns, whatever they are, the entry
point that takes patterns decodes the characters of their texts and fails, while the one that takes
texts does not fail for a text that cannot be decoded. -/
theorem generateFromPatterns_eq_generateSources_iff (files : Files) (paths : Table Int String)
    {check : Option SourceCheck} (hcheck : ∀ c ∈ check, c.IsDecoded)
    (patterns : Table String (List (List (String × Json)))) :
    let texts := patterns.map fun _ ps => ps.map outlineText
    (generateFromPatterns files paths check texts = generateSources files paths check texts ↔
        ∀ e ∈ patterns.entries, e.2 = []) ∧
      generateSources files paths check texts ≠ .error .malformedObject ∧
      ((∃ e ∈ patterns.entries, e.2 ≠ []) →
        generateFromPatterns files paths check texts = .error .malformedObject) := by
  intro texts
  have hparse : ∀ e ∈ texts.entries, ∀ t ∈ e.2, (Json.parse? t).isSome = true := by
    intro e he t ht
    obtain ⟨e, -, rfl⟩ := mem_map.1 he
    obtain ⟨attributes, -, rfl⟩ := mem_map.1 ht
    have hread : Json.parse? (outlineText attributes) = some (Json.obj attributes).reread :=
      Json.parse?_of_isTextOf (.inr ⟨2, rfl⟩)
    rw [hread]
    rfl
  have hdecoded := decoded_generateSources files paths hcheck hparse
  have hfails : (∃ e ∈ patterns.entries, e.2 ≠ []) →
      generateFromPatterns files paths check texts = .error .malformedObject := by
    rintro ⟨e, he, hne⟩
    refine generateFromPatterns_eq_error (begins_of_mem_texts patterns)
      ⟨(e.1, e.2.map outlineText), mem_map.2 ⟨e, he, rfl⟩, ?_⟩
    simpa using hne
  refine ⟨⟨fun heq e he => ?_, fun hempty => ?_⟩, hdecoded, hfails⟩
  · by_contra hne
    exact hdecoded (heq.symm.trans (hfails ⟨e, he, hne⟩))
  · have htexts : ∀ e ∈ texts.entries, e.2 = [] := by
      intro e he
      obtain ⟨e', he', rfl⟩ := mem_map.1 he
      simp [hempty e' he']
    have hstored : lastCharacters texts = ∅ := by
      have hnone : (texts.entries.filterMap fun e =>
          e.2.getLast?.map fun t => (e.1, t.toList.map String.singleton)) = [] := by
        rw [filterMap_eq_nil_iff]
        intro e he
        simp [htexts e he]
      rw [lastCharacters, hnone]
      rfl
    rw [generateSources_of_forall_nil files paths check htexts, generateFromPatterns_eq, hstored]
    exact generateSources_of_forall_nil files paths check fun e he => absurd he not_mem_nil

/-- The attributes of a loop without dependences and variables. -/
def loopAttributes : List (String × Json) :=
  [("start_line", .str "1:1"), ("end_line", .str "1:2"), ("first_private", .arr []),
    ("private", .arr []), ("last_private", .arr []), ("shared", .arr []), ("reduction", .arr [])]

/-- Two patterns of one type and none of another, with a check that accepts every source. -/
theorem generateFromPatterns_eq_generateSources_iff_twice :
    let check : SourceCheck := fun _ _ _ => .ok true
    let patterns : Table String (List (List (String × Json))) :=
      .ofList [("do_all", [loopAttributes, loopAttributes]), ("reduction", [])]
    let texts := patterns.map fun _ ps => ps.map outlineText
    (∀ c ∈ some check, c.IsDecoded) ∧
      generateFromPatterns loopFile (.ofList [(1, "main.c")]) (some check) texts ≠
        generateSources loopFile (.ofList [(1, "main.c")]) (some check) texts := by
  intro check patterns texts
  have hcheck : ∀ c ∈ some check, c.IsDecoded := by
    rintro c ⟨⟩ n path source
    exact decoded_ok true
  refine ⟨hcheck, fun heq => ?_⟩
  have hempty :=
    (generateFromPatterns_eq_generateSources_iff loopFile (.ofList [(1, "main.c")]) hcheck patterns).1.1 heq
  have hnil : [loopAttributes, loopAttributes] = [] :=
    hempty ("do_all", [loopAttributes, loopAttributes]) mem_cons_self
  cases hnil

/-- A single loop: its text gets the directive into the source, the pattern does not. -/
theorem generateFromPatterns_loopFile :
    let patterns : Table String (List (List (String × Json))) := .ofList [("do_all", [loopAttributes])]
    let texts := patterns.map fun _ ps => ps.map outlineText
    (generateSources loopFile (.ofList [(1, "main.c")]) none texts).toOption.bind (·.get? 1) =
        some "#pragma omp parallel for \nfor (;;)\n  x();\n" ∧
      generateFromPatterns loopFile (.ofList [(1, "main.c")]) none texts = .error .malformedObject :=
  ⟨by decide +kernel, generateFromPatterns_eq_error (begins_of_mem_texts _)
    ⟨("do_all", [outlineText loopAttributes]), mem_cons_self, cons_ne_nil _ _⟩⟩

end ParallelPatterns
