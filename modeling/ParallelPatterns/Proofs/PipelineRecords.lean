import ParallelPatterns.Directive.Generate
import ParallelPatterns.Proofs.DependenceText
import ParallelPatterns.Proofs.DetectedOperators
import ParallelPatterns.Proofs.JsonText
import ParallelPatterns.Proofs.TaskClasses

/-!
# Detected pipelines as stored patterns

A detected pipeline is written as a record and read again as a stored pattern. Its lines are written
as positions and its variables have names, so that everything in the record can be read except the
reductions of a stage: they are written as plain names, and are read as an operator and a name with
a colon between them.
-/

namespace ParallelPatterns

open List Text PatternRecord Json Analysis

variable {vs : List Variable} {s : PipelineStage} {key name : String}

/-! ## Variables with names -/

/-- Do all data dependences name their variables? -/
def Graph.NamesVariables (g : Graph) : Prop := ∀ e ∈ g.linkedEdges, e.dep.edge = .data → e.dep.var ≠ none

def VariableRegions.Named (t : VariableRegions) : Prop := ∀ e ∈ t, e.1.name = none → e.2 = []

variable {t : VariableRegions} {v : Json} {d : Directive}

theorem VariableRegions.Named.declare (ht : t.Named) (v : Variable) : (t.declare v).Named := by
  unfold VariableRegions.declare
  split
  · exact ht
  · intro e he hname
    rcases mem_append.1 he with he | he
    · exact ht e he hname
    · rw [mem_singleton.1 he]

namespace Graph

open ParallelPatterns.Graph

variable {g : Graph}

theorem NamesVariables.noteRegions (hg : g.NamesVariables) (ht : t.Named) (id : NodeId) :
    (g.noteRegions id t).Named := by
  have hdata : ∀ e ∈ g.outData id ++ g.inData id, e.dep.var ≠ none := by
    intro e he
    have hlinked : e ∈ g.linkedEdges ∧ e.dep.edge = .data := by
      simp only [outData, inData, outEdgesOf, inEdgesOf, outEdges, inEdges, mem_append, mem_filter,
        mem_flatMap, contains_cons, contains_nil, Bool.or_false, beq_iff_eq] at he
      rw [linkedEdges, mem_flatMap]
      rcases he with ⟨⟨l, hl, hel⟩, hkind⟩ | ⟨⟨l, hl, hel⟩, hkind⟩ <;> exact ⟨⟨l, hl.1, hel⟩, hkind⟩
    exact hg e hlinked.1 hlinked.2
  rintro e he hname
  obtain ⟨⟨v, regions⟩, hv, rfl⟩ := mem_map.1 he
  have hregions : regions = [] := ht _ hv hname
  -- no dependence is on a variable without a name
  have hnone : (((g.outData id ++ g.inData id).map (·.dep)).filterMap fun d =>
      if d.var == v.name then d.region else none) = [] := by
    rw [filterMap_eq_nil_iff]
    intro d hd
    obtain ⟨e, he, rfl⟩ := mem_map.1 hd
    rw [hname, if_neg]
    simpa using hdata e he
  show addAll regions _ = []
  rw [hregions, hnone]
  rfl

theorem NamesVariables.variablesOf (hg : g.NamesVariables) (nodes : List Node) : (g.variablesOf nodes).Named := by
  have hstart : VariableRegions.Named [] := fun e he => absurd he not_mem_nil
  refine foldlRecOn nodes _ hstart fun t ht n _ => ?_
  split
  · exact hg.noteRegions (foldlRecOn _ _ ht fun t ht v _ => ht.declare v) n.id
  · exact ht

theorem name_ne_none_of_knownNames {known : VariableRegions} (hknown : known.Named)
    {classified : List (Variable × List Region × TaskClass)} {k : TaskClass}
    (h : knownNames known classified k = .ok vs) : ∀ v ∈ vs, v.name ≠ none := by
  intro v hv hname
  obtain ⟨e, he, rfl⟩ := mem_map.1 ((sortVariables_perm h).mem_iff.1 hv)
  obtain ⟨hmem, hany⟩ := mem_filter.1 he
  rw [hknown e hmem hname] at hany
  cases hany

end Graph

def TaskVariables.classes (t : TaskVariables) : List (String × List Variable) :=
  [("first_private", t.firstPrivate), ("private", t.privates), ("shared", t.shared),
    ("in_deps", t.dependIn), ("out_deps", t.dependOut), ("in_out_deps", t.dependInOut)]

theorem Graph.NamesVariables.classifyTask {g : Graph} (hg : g.NamesVariables) {task : Node}
    {pattern : String} {incoming outgoing : List Edge} {standalone : Bool} {t : TaskVariables}
    (h : g.classifyTask task pattern incoming outgoing standalone = .ok t) :
    ∀ c ∈ t.classes, ∀ v ∈ c.2, v.name ≠ none := by
  obtain ⟨c, classified, before, -, -, -, hnames⟩ := classifyTask_eq_ok h
  have hnamed : ∀ k : TaskClass, k ≠ .reduction → ∀ v ∈ t.of k, v.name ≠ none := fun k hk =>
    name_ne_none_of_knownNames (hg.variablesOf before) (hnames k hk)
  intro c hc
  simp only [TaskVariables.classes, mem_cons, not_mem_nil, or_false] at hc
  rcases hc with rfl | rfl | rfl | rfl | rfl | rfl
  · exact hnamed .firstPrivate (by decide)
  · exact hnamed .privates (by decide)
  · exact hnamed .shared (by decide)
  · exact hnamed .dependIn (by decide)
  · exact hnamed .dependOut (by decide)
  · exact hnamed .dependInOut (by decide)

/-! ## What is detected -/

def IsPosition (s : String) : Prop := ∃ file line, s = position file line

/-- A stage whose lines are positions and whose variables have names. -/
structure PipelineStage.IsPlain (s : PipelineStage) : Prop where
  start : IsPosition s.startLine
  finish : IsPosition s.endLine
  named : ∀ c ∈ s.vars.classes, ∀ v ∈ c.2, v.name ≠ none

/-- A pipeline whose lines are positions, and whose stages are plain. -/
structure PipelinePattern.IsPlain (p : PipelinePattern) : Prop where
  start : IsPosition p.site.startLine
  finish : IsPosition p.site.endLine
  stages : ∀ s ∈ p.stages, s.IsPlain

theorem Graph.NamesVariables.pipelineOf {g : Graph} (hg : g.NamesVariables) {loop : Node}
    {c : Measure} {p : PipelinePattern} (h : g.pipelineOf loop c = .ok p) : p.IsPlain := by
  obtain ⟨stages, hstages, h⟩ := bind_eq_ok_iff.1 h
  cases h
  refine ⟨⟨_, _, rfl⟩, ⟨_, _, rfl⟩, fun s hs => ?_⟩
  obtain ⟨n, -, hn⟩ := (mem_of_mapM_eq_ok hstages s).1 hs
  obtain ⟨vars, hvars, hn⟩ := bind_eq_ok_iff.1 hn
  cases hn
  exact ⟨⟨_, _, rfl⟩, ⟨_, _, rfl⟩, hg.classifyTask hvars⟩

/-- Every detected pipeline is plain: noting coefficients changes no dependence, and the workloads
that are added last change neither lines nor stages. -/
theorem isPlain_of_detectPipelines {g g' : Graph} (hg : g.NamesVariables) {found : List PipelinePattern}
    (hrun : detectPipelines.runOn g = (.ok found, g')) : ∀ p ∈ found, p.IsPlain := by
  unfold detectPipelines at hrun
  rw [runOn_graph_bind] at hrun
  obtain ⟨loops, g₁, hloops, hrun⟩ := runOn_bind_eq_ok hrun
  have hplain : ∀ p ∈ loops, p.IsPlain := by
    refine (foldlM_runOn_induction
      (M := fun _ found g found' g' => g.NamesVariables → (∀ p ∈ found, p.IsPlain) →
        g'.NamesVariables ∧ ∀ p ∈ found', p.IsPlain)
      (fun _ _ hg hfound => ⟨hg, hfound⟩) ?_ hloops hg fun p hp => absurd hp not_mem_nil).2
    intro l ls found g found₁ g₁ found' g' hturn ih hg hfound
    rw [runOn_graph_bind] at hturn
    obtain ⟨c, -, hturn⟩ := runOn_lift_bind_eq_ok hturn
    obtain ⟨_, g₂, hmark, hturn⟩ := runOn_bind_eq_ok hturn
    cases hmark
    have hmarked : (g.modifyNode l.id fun n => { n with pipeline := c }).NamesVariables := hg
    split at hturn
    · obtain ⟨p, hp, hturn⟩ := runOn_lift_bind_eq_ok hturn
      cases hturn
      refine ih hmarked fun q hq => ?_
      rcases mem_append.1 hq with hq | hq
      · exact hfound q hq
      · rw [mem_singleton.1 hq]
        exact hg.pipelineOf hp
    · cases hturn
      exact ih hmarked hfound
  have hworkload := mapM_runOn_keeps (P := fun _ => True)
    (R := fun p q : PipelinePattern => p.IsPlain → q.IsPlain) ?_ trivial hrun
  · intro q hq
    obtain ⟨p, hp, hpq⟩ := hworkload.2 q hq
    exact hpq (hplain p hp)
  · intro p q g g' _ h
    obtain ⟨site, _, hsite, h⟩ := runOn_bind_eq_ok h
    cases h
    obtain ⟨-, workload, rfl⟩ := Graph.gives_withWorkload hsite
    exact ⟨trivial, fun hp => ⟨hp.start, hp.finish, hp.stages⟩⟩

/-! ## Reading records -/

theorem colon_notMem_toString (n : Int) : ':' ∉ (toString n).toList :=
  fun hc => absurd (eq_sign_or_isDigit hc) (by decide)

theorem split_position (file line : Int) : split ":" (position file line) = [toString file, toString line] := by
  have hcolon : ":".toList = [':'] := rfl
  rw [position, split_cons hcolon (colon_notMem_toString file),
    split_eq_singleton hcolon (colon_notMem_toString line)]

namespace Json

theorem parts_position (file line : Int) :
    (str (position file line)).parts = .ok [toString file, toString line] :=
  congrArg Except.ok (split_position file line)

variable {j : Json} {first second : String} {rest : List String}

theorem part_of_parts (h : j.parts = .ok (first :: second :: rest)) :
    j.part 0 = .ok first ∧ j.part 1 = .ok second := by
  rw [part, part, h]
  exact ⟨rfl, rfl⟩

theorem numbers_of_parts (h : j.parts = .ok (first :: second :: rest)) :
    j.fileNumber = number first ∧ j.lineNumber = number second := by
  simp only [fileNumber, lineNumber, (part_of_parts h).1, (part_of_parts h).2, bind, Except.bind, and_self]

@[simp]
theorem fileNumber_position (file line : Int) : (str (position file line)).fileNumber = .ok file := by
  rw [(numbers_of_parts (parts_position file line)).1, number_toString]

@[simp]
theorem lineNumber_position (file line : Int) : (str (position file line)).lineNumber = .ok line := by
  rw [(numbers_of_parts (parts_position file line)).2, number_toString]

theorem member_reread_obj {ms : List (String × Json)} (hkeys : (ms.map (·.1)).Nodup)
    (h : (key, v) ∈ ms) : (obj ms).reread.member key = .ok v.reread := by
  rw [reread_obj hkeys]
  have hread : ((ms.map fun m => (m.1, m.2.reread)).map (·.1)).Nodup := by simpa [Function.comp_def] using hkeys
  have hmem : (key, v.reread) ∈ ms.map fun m => (m.1, m.2.reread) := mem_map.2 ⟨(key, v), h, rfl⟩
  have hget : (obj (ms.map fun m => (m.1, m.2.reread))).get? key = some v.reread :=
    Table.get?_of_mem hread hmem
  unfold member
  rw [hget]

theorem mapM_text_str (xs : List String) : (xs.map str).mapM text = .ok xs := by
  induction xs with
  | nil => rfl
  | cons x xs ih =>
    rw [map_cons, mapM_cons, ih]
    rfl

end Json

namespace PatternRecord

theorem clause_strings {values : Json} {names : List String}
    (h : values.member key = .ok (.strings names)) (before : String) :
    clause values key before = .ok (if names = [] then "" else before ++ ",".intercalate names ++ ") ") := by
  unfold clause
  rw [h]
  cases names with
  | nil => rfl
  | cons name names =>
    have hjoined : (strings (name :: names)).joined "," = .ok (",".intercalate (name :: names)) := by
      show (do return ",".intercalate (← ((name :: names).map str).mapM text)) = _
      rw [mapM_text_str]
      rfl
    show (do return before ++ (← (strings (name :: names)).joined ",") ++ ") ") = _
    rw [hjoined]
    rfl

theorem exists_parts_of_colon (h : ':' ∈ name.toList) :
    ∃ op var, (str name).part 0 = .ok op ∧ (str name).part 1 = .ok var := by
  have hsep : ":".toList = [':'] := rfl
  rcases exists_of_split hsep name with ⟨hnone, -⟩ | ⟨first, rest, -, -, hsplit⟩
  · exact absurd h hnone
  · obtain ⟨second, more, hrest⟩ := exists_cons_of_ne_nil (split_ne_nil ":" rest)
    have hparts : (str name).parts = .ok (first :: second :: more) := by rw [Json.parts, hsplit, hrest]
    exact ⟨first, second, part_of_parts hparts⟩

theorem part_of_no_colon (h : ':' ∉ name.toList) :
    (str name).part 0 = .ok name ∧ (str name).part 1 = .error .outOfRange := by
  have hparts : (str name).parts = .ok [name] := congrArg Except.ok (split_eq_singleton rfl h)
  rw [part, part, hparts]
  exact ⟨rfl, rfl⟩

section Reductions

variable {values : Json} {names : List String} (hmember : values.member "reduction" = .ok (.strings names))
include hmember

theorem reductionsOf_eq : reductionsOf values = (names.map str).foldlM (fun t entry => do
    let op ← entry.part 0
    return t.update op [] (· ++ [← entry.part 1])) ∅ := by
  unfold reductionsOf
  rw [hmember]
  rfl

theorem exists_reductionClauses (hcolon : ∀ name ∈ names, ':' ∈ name.toList) :
    ∃ text, reductionClauses values = .ok text := by
  have hread : ∃ t, reductionsOf values = .ok t := by
    rw [reductionsOf_eq hmember]
    refine exists_foldlM_eq_ok (fun t entry hentry => ?_) ∅
    obtain ⟨name, hname, rfl⟩ := mem_map.1 hentry
    obtain ⟨op, var, hop, hvar⟩ := exists_parts_of_colon (hcolon name hname)
    rw [hop, hvar]
    exact ⟨_, rfl⟩
  obtain ⟨t, ht⟩ := hread
  rw [reductionClauses, ht]
  exact ⟨_, rfl⟩

theorem reductionClauses_eq_error (hcolon : ∃ name ∈ names, ':' ∉ name.toList) :
    reductionClauses values = .error .outOfRange := by
  have hread : reductionsOf values = .error .outOfRange := by
    rw [reductionsOf_eq hmember]
    refine foldlM_eq_error (fun t entry hentry => ?_) ?_ ∅
    · obtain ⟨name, -, rfl⟩ := mem_map.1 hentry
      by_cases hname : ':' ∈ name.toList
      · obtain ⟨op, var, hop, hvar⟩ := exists_parts_of_colon hname
        rw [hop, hvar]
        exact .inr ⟨_, rfl⟩
      · rw [(part_of_no_colon hname).1, (part_of_no_colon hname).2]
        exact .inl rfl
    · obtain ⟨name, hmem, hname⟩ := hcolon
      refine ⟨.str name, mem_map_of_mem hmem, fun t => ?_⟩
      rw [(part_of_no_colon hname).1, (part_of_no_colon hname).2]
      rfl
  rw [reductionClauses, hread]
  rfl

end Reductions

end PatternRecord

theorem exists_vars_eq_strings (g : Graph) (h : ∀ v ∈ vs, v.name ≠ none) :
    ∃ names, (PatternEncoding.full g).vars vs = .strings names := by
  have htext : ∀ v ∈ vs, ∃ name, PatternEncoding.variableText g v = .str name := by
    intro v hv
    obtain ⟨name, hname⟩ := Option.ne_none_iff_exists'.1 (h v hv)
    unfold PatternEncoding.variableText
    rw [hname]
    split
    · split <;> exact ⟨_, rfl⟩
    · exact ⟨_, rfl⟩
  choose! name hname using htext
  refine ⟨vs.map name, ?_⟩
  rw [strings, map_map]
  exact congrArg arr (map_congr_left hname)

namespace PipelineStage

theorem nodup_keys (s : PipelineStage) (e : PatternEncoding) : ((s.attributes e).map (·.1)).Nodup := by
  simp [attributes]

def stored (s : PipelineStage) (g : Graph) : Json := (Json.obj (s.attributes (.full g))).reread

theorem member_stored (s : PipelineStage) (g : Graph) (key : String)
    (h : (key, v) ∈ s.attributes (.full g)) : (s.stored g).member key = .ok v.reread :=
  member_reread_obj (s.nodup_keys _) h

theorem member_reduction (s : PipelineStage) (g : Graph) :
    (s.stored g).member "reduction" = .ok (.strings s.vars.reduction) := by
  rw [s.member_stored g "reduction" (v := .strings s.vars.reduction) (by simp [attributes]), reread_strings]

theorem mem_attributes_of_mem_classes
    (h : (key, vs) ∈ s.vars.classes) (e : PatternEncoding) : (key, e.vars vs) ∈ s.attributes e := by
  simp only [TaskVariables.classes, mem_cons, not_mem_nil, or_false] at h
  rcases h with ⟨rfl, rfl⟩ | ⟨rfl, rfl⟩ | ⟨rfl, rfl⟩ | ⟨rfl, rfl⟩ | ⟨rfl, rfl⟩ | ⟨rfl, rfl⟩ <;> simp [attributes]

theorem IsPlain.exists_clauses (hs : s.IsPlain) (g : Graph) {classes : List (String × String)}
    (h : ∀ c ∈ classes, ∃ vs, (c.1, vs) ∈ s.vars.classes) : ∃ text, clauses (s.stored g) classes = .ok text := by
  have hclause : ∀ c ∈ classes, ∃ text, clause (s.stored g) c.1 c.2 = .ok text := by
    intro c hc
    obtain ⟨vs, hvs⟩ := h c hc
    obtain ⟨names, hnames⟩ := exists_vars_eq_strings g (hs.named _ hvs)
    have hmember := s.member_stored g c.1 (mem_attributes_of_mem_classes hvs _)
    rw [hnames, reread_strings] at hmember
    exact ⟨_, clause_strings hmember c.2⟩
  obtain ⟨texts, htexts, -⟩ := exists_mapM_eq_ok hclause
  exact ⟨_, by rw [clauses, htexts]; rfl⟩

theorem IsPlain.stageDirective_eq (hs : s.IsPlain) (g : Graph) (r : PatternRecord) :
    ∃ f : String → Directive, r.stageDirective (s.stored g) = f <$> reductionClauses (s.stored g) := by
  obtain ⟨file, first, hstart⟩ := hs.start
  obtain ⟨file', last, hfinish⟩ := hs.finish
  have hfirst := s.member_stored g "startsAtLine" (v := .str s.startLine) (by simp [attributes])
  have hlast := s.member_stored g "endsAtLine" (v := .str s.endLine) (by simp [attributes])
  rw [hstart] at hfirst
  rw [hfinish] at hlast
  obtain ⟨before, hbefore⟩ : ∃ t, clauses (s.stored g) stageClasses = .ok t :=
    hs.exists_clauses g (by simp [stageClasses, TaskVariables.classes])
  obtain ⟨behind, hbehind⟩ : ∃ t, clauses (s.stored g) stageDependences = .ok t :=
    hs.exists_clauses g (by simp [stageDependences, TaskVariables.classes])
  refine ⟨fun reductions => { text := "#pragma omp task " ++ before ++ reductions ++ behind
                              file := some r.file, first := some first, last := some last }, ?_⟩
  unfold stageDirective
  cases reductionClauses (s.stored g) <;>
    simp [hfirst, hlast, hbefore, hbehind, bind, Except.bind, pure, Except.pure]

end PipelineStage

namespace PipelinePattern

theorem nodup_keys (p : PipelinePattern) (e : PatternEncoding) : ((p.attributes e).map (·.1)).Nodup := by
  simp [attributes, PatternSite.attributes]

theorem IsPlain.exists_ofText {p : PipelinePattern} (hp : p.IsPlain) (g : Graph) {text : String}
    (htext : Json.IsTextOf text (.obj (p.attributes (.full g)))) :
    ∃ r, ofText "pipeline" text = .ok r ∧
      r.directives = (p.stages.map (·.stored g)).mapM r.stageDirective := by
  obtain ⟨file, first, hstart⟩ := hp.start
  obtain ⟨file', last, hfinish⟩ := hp.finish
  have hmember : ∀ (key : String) (v : Json), (key, v) ∈ p.attributes (.full g) →
      (obj (p.attributes (.full g))).reread.member key = .ok v.reread :=
    fun _ _ => member_reread_obj (p.nodup_keys _)
  have hfirst := hmember "start_line" (.str p.site.startLine) (by simp [attributes, PatternSite.attributes])
  have hlast := hmember "end_line" (.str p.site.endLine) (by simp [attributes, PatternSite.attributes])
  have hstages := hmember "stages" (.arr (p.stages.map fun s => .obj (s.attributes (.full g))))
    (by simp [attributes, PatternEncoding.full])
  rw [hstart] at hfirst
  rw [hfinish] at hlast
  rw [reread_arr, map_map] at hstages
  refine ⟨⟨"pipeline", (obj (p.attributes (.full g))).reread, file, first, last⟩, ?_, ?_⟩
  · rw [ofText, parse?_of_isTextOf htext]
    simp [ofJson, hfirst, hlast, bind, Except.bind, pure, Except.pure]
  · simp only [directives, listed, hstages]
    rfl

variable {p : PipelinePattern} {g : Graph} {r : PatternRecord}
  (hdirectives : r.directives = (p.stages.map (·.stored g)).mapM r.stageDirective)
include hdirectives

theorem IsPlain.directives_eq_error (hp : p.IsPlain)
    (hcolon : ∃ s ∈ p.stages, ∃ name ∈ s.vars.reduction, ':' ∉ name.toList) :
    r.directives = .error .outOfRange := by
  rw [hdirectives]
  refine mapM_eq_error (fun j hj => ?_) ?_
  · obtain ⟨s, hs, rfl⟩ := mem_map.1 hj
    obtain ⟨f, hf⟩ := (hp.stages s hs).stageDirective_eq g r
    rw [hf]
    by_cases hall : ∀ name ∈ s.vars.reduction, ':' ∈ name.toList
    · obtain ⟨text, htext⟩ := exists_reductionClauses (s.member_reduction g) hall
      rw [htext]
      exact .inr ⟨f text, rfl⟩
    · push Not at hall
      rw [reductionClauses_eq_error (s.member_reduction g) hall]
      exact .inl rfl
  · obtain ⟨s, hs, hname⟩ := hcolon
    obtain ⟨f, hf⟩ := (hp.stages s hs).stageDirective_eq g r
    refine ⟨s.stored g, mem_map_of_mem hs, ?_⟩
    rw [hf, reductionClauses_eq_error (s.member_reduction g) hname]
    rfl

theorem IsPlain.exists_directives (hp : p.IsPlain)
    (hcolon : ∀ s ∈ p.stages, ∀ name ∈ s.vars.reduction, ':' ∈ name.toList) :
    ∃ ds, r.directives = .ok ds ∧ Forall₂ (fun s d => r.stageDirective (s.stored g) = .ok d) p.stages ds := by
  have hstages : ∀ j ∈ p.stages.map (·.stored g), ∃ d, r.stageDirective j = .ok d := by
    intro j hj
    obtain ⟨s, hs, rfl⟩ := mem_map.1 hj
    obtain ⟨f, hf⟩ := (hp.stages s hs).stageDirective_eq g r
    obtain ⟨text, htext⟩ := exists_reductionClauses (s.member_reduction g) (hcolon s hs)
    exact ⟨f text, by rw [hf, htext]; rfl⟩
  obtain ⟨ds, hds, -⟩ := exists_mapM_eq_ok hstages
  exact ⟨ds, hdirectives.trans hds, forall₂_map_left_iff.1 (forall₂_of_mapM_eq_ok hds)⟩

end PipelinePattern

/-! ## Reductions in directives -/

namespace Text

theorem mem_of_mem_split {x c : Char} {sep s part : String} (hsep : sep.toList = [c]) (hx : x ≠ c)
    (hpart : part ∈ split sep s) (hmem : x ∈ part.toList) : x ∈ s.toList := by
  rw [split, hsep] at hpart
  obtain ⟨chars, hchars, rfl⟩ := mem_map.1 hpart
  rw [String.toList_ofList] at hmem
  have hother : x ∉ [c] := by simpa using hx
  exact ((exists_mem_splitGo_iff hother 0 [] s.toList).1 ⟨chars, hchars, hmem⟩).resolve_left not_mem_nil

end Text

/-- The names in each reduction clause of a directive, which stand between the colon behind the
operator and the closing bracket. -/
def Directive.reducedNames (d : Directive) : List (List String) :=
  ((split "reduction(" d.text).drop 1).map fun rest =>
    split "," ((split ":" ((split ")" rest).headD "")).getD 1 "")

example : ({ text := "#pragma omp task reduction(+:x,y) reduction(max:z) depends(in:w) " } :
    Directive).reducedNames = [["x", "y"], ["z"]] := by decide +kernel

theorem Directive.colon_notMem_of_reducedNames {names : List String}
    (hnames : names ∈ d.reducedNames) (hname : name ∈ names) : ':' ∉ name.toList := by
  obtain ⟨rest, -, rfl⟩ := mem_map.1 hnames
  intro hcolon
  have hlist := mem_of_mem_split rfl (by decide : ':' ≠ ',') hname hcolon
  rw [getD_eq_getElem?_getD] at hlist
  cases hpart : (split ":" ((split ")" rest).headD ""))[1]? with
  | none =>
    rw [hpart] at hlist
    cases hlist
  | some part =>
    rw [hpart] at hlist
    exact notMem_of_mem_split rfl (mem_of_getElem? hpart) hlist

/-- Each name in the reduction list of the stage occurs in exactly one reduction clause of the
directive. -/
def PipelineStage.ReducedOnceIn (s : PipelineStage) (d : Directive) : Prop :=
  ∀ name ∈ s.vars.reduction, (d.reducedNames.countP fun names => names.contains name) = 1

theorem PipelineStage.ReducedOnceIn.colon_notMem (h : s.ReducedOnceIn d)
    (hname : name ∈ s.vars.reduction) : ':' ∉ name.toList := by
  have hpos : 0 < d.reducedNames.countP fun names => names.contains name := by
    rw [h name hname]
    exact Nat.one_pos
  obtain ⟨names, hnames, hmem⟩ := countP_pos_iff.1 hpos
  exact Directive.colon_notMem_of_reducedNames hnames (by simpa using hmem)

/-- The record of a detected pipeline is always read, but it gives the directives of its stages,
with every reduction in one clause, only if there are no reductions. The reductions of a stage are
written as plain names, and a name without a colon lets all directives of the pipeline fail. -/
theorem PipelinePattern.directives_of_detected {g g' : Graph} (hg : g.NamesVariables) {found : List PipelinePattern}
    (hrun : detectPipelines.runOn g = (.ok found, g')) {p : PipelinePattern} (hp : p ∈ found)
    (h : Graph) {text : String} (htext : Json.IsTextOf text (.obj (p.attributes (.full h)))) :
    ∃ r, PatternRecord.ofText "pipeline" text = .ok r ∧
      ((∃ s ∈ p.stages, ∃ name ∈ s.vars.reduction, ':' ∉ name.toList) → r.directives = .error .outOfRange) ∧
      ((∀ s ∈ p.stages, ∀ name ∈ s.vars.reduction, ':' ∈ name.toList) →
        ∃ ds, r.directives = .ok ds ∧ ds.length = p.stages.length) ∧
      ((∃ ds, r.directives = .ok ds ∧ List.Forall₂ PipelineStage.ReducedOnceIn p.stages ds) ↔
        ∀ s ∈ p.stages, s.vars.reduction = []) := by
  have hplain := isPlain_of_detectPipelines hg hrun p hp
  obtain ⟨r, hr, hdirectives⟩ := hplain.exists_ofText h htext
  refine ⟨r, hr, hplain.directives_eq_error hdirectives, fun hcolon => ?_, ?_, fun hnone => ?_⟩
  · obtain ⟨ds, hds, hstages⟩ := hplain.exists_directives hdirectives hcolon
    exact ⟨ds, hds, hstages.length_eq.symm⟩
  · rintro ⟨ds, hds, honce⟩ s hs
    -- a name that is found in a clause has no colon, and then there are no clauses
    have hnames : ∀ s ∈ p.stages, ∀ name ∈ s.vars.reduction, ':' ∉ name.toList :=
      ((forall₂_and_left _ _).1 (honce.imp fun s d hd => ⟨fun _ => hd.colon_notMem, hd⟩)).1
    rw [eq_nil_iff_forall_not_mem]
    intro name hname
    have herror := hplain.directives_eq_error hdirectives ⟨s, hs, name, hname, hnames s hs name hname⟩
    rw [hds] at herror
    cases herror
  · have hempty : ∀ s ∈ p.stages, ∀ name, name ∉ s.vars.reduction := fun s hs =>
      eq_nil_iff_forall_not_mem.1 (hnone s hs)
    obtain ⟨ds, hds, hstages⟩ :=
      hplain.exists_directives hdirectives fun s hs name hname => absurd hname (hempty s hs name)
    refine ⟨ds, hds, ((forall₂_and_left _ _).2 ⟨hempty, hstages⟩).imp ?_⟩
    exact fun s d hsd name hname => absurd hname (hsd.1 name)

variable (reductions : List ReductionRecord)

/-- A loop with two stages: an inner loop that changes a variable, and a unit that reads it
afterwards. -/
def stagedLoop : Graph where
  nodes :=
    let loop (id : NodeId) (number start finish : Int) (reduction : Bool) : Node :=
      { id, file := 1, number, startLine := start, endLine := finish, name := none, parentFunction := some "1:0",
        reduction, body := .loop {} }
    let unit (id : NodeId) (number line : Int) : Node :=
      let x : Variable := { type := some "int", name := some "x", defLine := some "1:2", size := 4 }
      { id, file := 1, number, startLine := line, endLine := line, name := none, parentFunction := some "1:0",
        body := .unit { locals := [x] } }
    ⟨[("1:0", { id := "1:0", file := 1, number := 0, startLine := 1, endLine := 9, name := some "main",
                body := .function {} }),
      ("1:1", loop "1:1" 1 3 8 false), ("1:2", loop "1:2" 2 4 6 true), ("1:3", unit "1:3" 3 5),
      ("1:4", unit "1:4" 4 7)]⟩
  links :=
    let link (s t : NodeId) (kind : EdgeKind) : Link := ⟨s, t, [(0, { edge := kind })]⟩
    [link "1:0" "1:1" .child, link "1:1" "1:2" .child, link "1:1" "1:4" .child,
      link "1:2" "1:3" .child, link "1:3" "1:4" .successor,
      ⟨"1:4", "1:3", [(0, { edge := .data, kind := some .readAfterWrite, var := some "x", region := some "m",
                            sourceLine := some "1:5", sinkLine := some "1:7" })]⟩]
  reductions := some reductions

theorem namesVariables_stagedLoop : (stagedLoop reductions).NamesVariables := by
  show ∀ e ∈ (stagedLoop []).linkedEdges, e.dep.edge = .data → e.dep.var ≠ none
  decide

/-- Without reductions the pipeline of the loop gives two directives. -/
theorem PipelinePattern.directives_of_detected_stagedLoop :
    ∃ p ∈ foundIn detectPipelines (stagedLoop []), p.stages.map (·.startLine) = ["1:4", "1:7"] ∧
      ∃ r ds, PatternRecord.ofText "pipeline" (Json.obj (p.attributes (.full (stagedLoop [])))).compact = .ok r ∧
        r.directives = .ok ds ∧ List.Forall₂ PipelineStage.ReducedOnceIn p.stages ds := by
  have hrun := runOn_eq_foundIn (a := detectPipelines) (g := stagedLoop []) (by decide +kernel)
  obtain ⟨p, hp, hlines, hnone⟩ : ∃ p ∈ foundIn detectPipelines (stagedLoop []),
      p.stages.map (·.startLine) = ["1:4", "1:7"] ∧ ∀ s ∈ p.stages, s.vars.reduction = [] := by decide +kernel
  obtain ⟨r, hr, -, -, hiff⟩ :=
    directives_of_detected (namesVariables_stagedLoop []) hrun hp (stagedLoop []) (.inl rfl)
  obtain ⟨ds, hds, honce⟩ := hiff.2 hnone
  exact ⟨p, hp, hlines, r, ds, hr, hds, honce⟩

/-- The inner loop of the staged loop sums up the variable. -/
def summed : ReductionRecord where
  loopLine := "1:4"
  name := "x"
  reductionLine := "1:5"
  operation := "+"

/-- If the inner loop is a reduction, the pipeline of the loop is found and its record is read, but
it gives no directives. -/
theorem PipelinePattern.no_directives_of_summed :
    ∃ p ∈ foundIn detectPipelines (stagedLoop [summed]), p.stages.map (·.vars.reduction) = [["x"], []] ∧
      ∃ r, PatternRecord.ofText "pipeline" (Json.obj (p.attributes (.full (stagedLoop [summed])))).compact = .ok r ∧
        r.directives = .error .outOfRange := by
  have hrun := runOn_eq_foundIn (a := detectPipelines) (g := stagedLoop [summed]) (by decide +kernel)
  obtain ⟨p, hp, hreductions, hcolon⟩ : ∃ p ∈ foundIn detectPipelines (stagedLoop [summed]),
      p.stages.map (·.vars.reduction) = [["x"], []] ∧
        ∃ s ∈ p.stages, ∃ name ∈ s.vars.reduction, ':' ∉ name.toList := by decide +kernel
  have hplain := isPlain_of_detectPipelines (namesVariables_stagedLoop [summed]) hrun p hp
  obtain ⟨r, hr, hdirectives⟩ := hplain.exists_ofText (stagedLoop [summed]) (.inl rfl)
  exact ⟨p, hp, hreductions, r, hr, hplain.directives_eq_error hdirectives hcolon⟩

end ParallelPatterns
