import ParallelPatterns.Directive.Generate
import ParallelPatterns.Proofs.SourceLayout

/-!
# The places of directives

A directive is made from a part of a stored pattern: the pattern itself, a stage, a loop, a
construct of a loop, or a line at which data is moved or noted. Each part names its place, a line of
a file. The directive stands on the line of its part; but only the directive of a loop has the file
of its part, and all others have the file of the pattern. So a part that lies in another file is
taken for a part of the file of the pattern, and is inserted there.
-/

namespace ParallelPatterns

open List Directive

variable {file : Int} {ds : List Directive} {withMaps : Bool}

/-- A part of a stored pattern that a directive is made from. -/
inductive PatternPart where
  /-- A part with its place: the pattern itself, a stage, or a line at which data is moved or
  noted. -/
  | single (place : Json)
  | loop (place : Json) (constructs : List Json)

namespace PatternRecord

/-! ## The parts of stored patterns -/

/-- The place that a construct of a loop names. -/
def placeOf (loop construct : Json) : Result Json := do
  let place ← construct.member "line"
  constructPlace loop place (← place.holdsColon)

/-- The part of a loop for an accelerator. -/
def loopPart (loop : Json) : Result PatternPart := do
  return .loop (← loop.member "start_line") (← listed loop "constructs" (placeOf loop))

/-- The part of an entry with so many components, of which one is its place. -/
def entryPart (count place : Nat) (entry : Json) : Result PatternPart := do
  return .single ((← entry.tuple count).getD place .null)

/-- The part of a stage of a pipeline. -/
def stagePart (stage : Json) : Result PatternPart := do return .single (← stage.member "startsAtLine")

/-- The parts of a stored pattern, in the order of its directives. -/
def parts (p : PatternRecord) : Result (List PatternPart) := do
  match p.type with
  | "pipeline" => listed p.values "stages" stagePart
  | "simple_gpu" => listed p.values "contained_loops" loopPart
  | "combined_gpu" =>
    let entries ← listed p.values "data_region_entry_points" (entryPart 6 4)
    let exits ← listed p.values "data_region_exit_points" (entryPart 6 4)
    let ins ← listed p.values "data_region_depend_in" (entryPart 3 2)
    let outs ← listed p.values "data_region_depend_out" (entryPart 3 2)
    let updates ← listed p.values "update_instructions" (entryPart 5 4)
    let regions ← listed p.values "contained_regions" fun region => listed region "contained_loops" loopPart
    return entries ++ exits ++ ins ++ outs ++ updates ++ regions.flatten
  | _ => return [.single (← p.values.member "start_line")]

end PatternRecord

/-! ## Directives and places -/

/-- The directive is for the line of a place, in the given file. -/
def Directive.IsOn (d : Directive) (file : Int) (place : Json) : Prop :=
  d.file = some file ∧ ∃ line, place.lineNumber = .ok line ∧ d.first = some line

/-- The directive is for the line and the file of a place. -/
def Directive.IsAt (d : Directive) (place : Json) : Prop := ∃ file, place.fileNumber = .ok file ∧ d.IsOn file place

theorem Directive.IsOn.isAt_iff {d : Directive} {place : Json} (h : d.IsOn file place) :
    d.IsAt place ↔ place.fileNumber = .ok file := by
  constructor
  · rintro ⟨f, hf, hon⟩
    obtain rfl : f = file := Option.some.inj (hon.1.symm.trans h.1)
    exact hf
  · exact fun hfile => ⟨file, hfile, h⟩

theorem forall₂_iff_forall_mem {α β : Type} {R S : α → β → Prop} {P : α → Prop} {xs : List α} {ys : List β}
    (h : Forall₂ R xs ys) (hS : ∀ x y, R x y → (S x y ↔ P x)) : Forall₂ S xs ys ↔ ∀ x ∈ xs, P x := by
  induction h with
  | nil => simp
  | cons hxy _ ih => rw [forall₂_cons, hS _ _ hxy, ih, forall_mem_cons]

namespace PatternPart

/-- How the directive of a part is made for a pattern in a file: a loop keeps its file, and every
other part gets that of the pattern. -/
def Made (file : Int) : PatternPart → Directive → Prop
  | .single place, d => d.IsOn file place ∧ d.children = []
  | .loop place constructs, d =>
    d.IsAt place ∧ List.Forall₂ (fun c e => e.IsOn file c ∧ e.children = []) constructs d.children

/-- The directive of a part, and those of the constructs of a loop, are for the files and lines of
their places. -/
def Faithful : PatternPart → Directive → Prop
  | .single place, d => d.IsAt place
  | .loop place constructs, d => d.IsAt place ∧ List.Forall₂ (fun c e => e.IsAt c) constructs d.children

/-- The places whose file is taken to be that of the pattern. -/
def assigned : PatternPart → List Json
  | .single place => [place]
  | .loop _ constructs => constructs

/-- The places whose directives are inserted into the file of the pattern: those of all parts but
the loops in other files. -/
def inserted (file : Int) : PatternPart → List Json
  | .single place => [place]
  | .loop place constructs => if place.fileNumber.toOption = some file then place :: constructs else []

theorem Made.faithful_iff {part : PatternPart} {d : Directive} (h : part.Made file d) :
    part.Faithful d ↔ ∀ place ∈ part.assigned, place.fileNumber = .ok file := by
  cases part with
  | single place =>
    rw [assigned, forall_mem_singleton]
    exact h.1.isAt_iff
  | loop place constructs =>
    rw [Faithful, forall₂_iff_forall_mem h.2 fun c e he => he.1.isAt_iff]
    exact and_iff_right h.1

end PatternPart

theorem Directive.nodesAll_of_forall₂ {places : List Json}
    (h : Forall₂ (fun place d => d.IsOn file place ∧ d.children = []) places ds) : nodesAll file ds = ds := by
  induction h with
  | nil => rw [nodesAll]
  | cons hd _ ih =>
    rw [nodesAll, nodes_eq, hd.1.1, hd.2, ih, nodesAll]
    simp

namespace PatternPart

theorem Made.forall₂_nodes {part : PatternPart} {d : Directive} (h : part.Made file d) :
    Forall₂ (fun place e => e.IsOn file place) (part.inserted file) (d.nodes file) := by
  cases part with
  | single place =>
    obtain ⟨hon, hchildren⟩ := h
    have hnodes : d.nodes file = [d] := by
      rw [nodes_eq, hon.1, hchildren, nodesAll]
      simp
    rw [hnodes]
    exact .cons hon .nil
  | loop place constructs =>
    obtain ⟨⟨f, hf, hon⟩, hconstructs⟩ := h
    rw [inserted, nodes_eq, hf, hon.1]
    by_cases hfile : f = file
    · subst hfile
      have hfound : (Except.ok f : Result Int).toOption = some f := rfl
      rw [if_pos hfound, if_neg (by simp), nodesAll_of_forall₂ hconstructs]
      exact .cons hon (hconstructs.imp fun c e he => he.1)
    · simp [Except.toOption, hfile]

theorem forall₂_nodesAll {parts : List PatternPart} (h : Forall₂ (Made file) parts ds) :
    Forall₂ (fun place e => e.IsOn file place) (parts.flatMap (inserted file)) (nodesAll file ds) := by
  induction h with
  | nil =>
    exact .nil
  | cons hpart _ ih =>
    exact rel_append hpart.forall₂_nodes ih

end PatternPart

/-! ## How directives are made -/

namespace PatternRecord

variable {p : PatternRecord} {d : Directive}

variable {values loop : Json} {type : String}

theorem exists_listed {α β : Type} {f : Json → Result β} {read : Json → Result α} {R : α → β → Prop}
    (hread : ∀ j y, f j = .ok y → ∃ z, read j = .ok z ∧ R z y) {key : String} {ys : List β}
    (h : listed values key f = .ok ys) : ∃ zs, listed values key read = .ok zs ∧ Forall₂ R zs ys := by
  obtain ⟨js, hmember, h⟩ := bind_eq_ok_iff.1 h
  obtain ⟨entries, hentries, h⟩ := bind_eq_ok_iff.1 h
  obtain ⟨zs, hzs, hR⟩ := exists_mapM_forall₂ (fun j _ => hread j) h
  exact ⟨zs, bind_eq_ok_iff.2 ⟨js, hmember, bind_eq_ok_iff.2 ⟨entries, hentries, hzs⟩⟩, hR⟩

theorem stageDirective_made {stage : Json} (h : p.stageDirective stage = .ok d) :
    ∃ part, stagePart stage = .ok part ∧ part.Made p.file d := by
  -- beside the first line, the last line and the clauses are read
  simp only [stageDirective, bind_eq_ok_iff] at h
  obtain ⟨place, hplace, first, hfirst, _, -, _, -, _, -, _, -, _, -, h⟩ := h
  cases h
  exact ⟨.single place, bind_eq_ok_iff.2 ⟨place, hplace, rfl⟩, ⟨rfl, first, hfirst, rfl⟩, rfl⟩

theorem entryDirective_made {count place : Nat} {text : List Json → Result String}
    {position : List Json → Result DirectivePosition} {entry : Json}
    (h : p.entryDirective count place text position entry = .ok d) :
    ∃ part, entryPart count place entry = .ok part ∧ part.Made p.file d := by
  simp only [entryDirective, lineDirective, bind_eq_ok_iff] at h
  obtain ⟨components, htuple, _, -, n, hn, _, -, h⟩ := h
  cases h
  exact ⟨_, bind_eq_ok_iff.2 ⟨components, htuple, rfl⟩, ⟨rfl, n, hn, rfl⟩, rfl⟩

theorem constructLines_fst (line first last : Int) : (constructLines line first last).1 = line := by
  unfold constructLines
  split
  case isTrue hfirst => exact (beq_iff_eq.1 hfirst).symm
  case isFalse => split <;> rfl

theorem constructDirective_isOn {construct : Json} {first last : Int}
    (h : p.constructDirective loop construct first last withMaps = .ok d) :
    ∃ place, placeOf loop construct = .ok place ∧ d.IsOn p.file place ∧ d.children = [] := by
  -- what is read after the line is not for the place
  simp only [constructDirective, bind_eq_ok_iff] at h
  obtain ⟨named, hnamed, isPlaced, hplaced, place, hplace, line, hline, _, -, _, -, _, -, _, -, _,
    -, _, -, _, -, h⟩ := h
  cases h
  refine ⟨place, ?_, ⟨rfl, line, hline, congrArg some (constructLines_fst line first last)⟩, rfl⟩
  exact bind_eq_ok_iff.2 ⟨named, hnamed, bind_eq_ok_iff.2 ⟨isPlaced, hplaced, hplace⟩⟩

theorem acceleratedLoop_made (h : p.acceleratedLoop withMaps loop = .ok d) :
    ∃ part, loopPart loop = .ok part ∧ part.Made p.file d := by
  simp only [acceleratedLoop, bind_eq_ok_iff] at h
  obtain ⟨start, hstart, first, hfirst, finish, -, last, -, file, hfile, children, hchildren, h⟩ := h
  cases h
  obtain ⟨places, hplaces, hon⟩ := exists_listed (fun _ _ => constructDirective_isOn) hchildren
  refine ⟨.loop start places, ?_, ⟨file, hfile, rfl, first, hfirst, rfl⟩, hon⟩
  exact bind_eq_ok_iff.2 ⟨start, hstart, bind_eq_ok_iff.2 ⟨places, hplaces, rfl⟩⟩

theorem regionDirectives_made {region : Json} (h : p.regionDirectives region withMaps = .ok ds) :
    ∃ parts, listed region "contained_loops" loopPart = .ok parts ∧
      Forall₂ (PatternPart.Made p.file) parts ds := by
  simp only [regionDirectives, bind_eq_ok_iff] at h
  obtain ⟨start, -, finish, -, _, -, _, -, _, -, h⟩ := h
  exact exists_listed (fun _ _ => acceleratedLoop_made) h

theorem combinedDirectives_made (htype : p.type = "combined_gpu") (h : p.combinedDirectives = .ok ds) :
    ∃ parts, p.parts = .ok parts ∧ Forall₂ (PatternPart.Made p.file) parts ds := by
  simp only [combinedDirectives, bind_eq_ok_iff] at h
  obtain ⟨_, -, _, hentries, _, hexits, _, -, _, hins, _, houts, _, hupdates, _, hregions, h⟩ := h
  cases h
  obtain ⟨entryParts, hentryParts, hentries⟩ := exists_listed (fun _ _ => entryDirective_made) hentries
  obtain ⟨exitParts, hexitParts, hexits⟩ := exists_listed (fun _ _ => entryDirective_made) hexits
  obtain ⟨inParts, hinParts, hins⟩ := exists_listed (fun _ _ => entryDirective_made) hins
  obtain ⟨outParts, houtParts, houts⟩ := exists_listed (fun _ _ => entryDirective_made) houts
  obtain ⟨updateParts, hupdateParts, hupdates⟩ := exists_listed (fun _ _ => entryDirective_made) hupdates
  obtain ⟨regionParts, hregionParts, hregions⟩ := exists_listed (fun _ _ => regionDirectives_made) hregions
  refine ⟨entryParts ++ exitParts ++ inParts ++ outParts ++ updateParts ++ regionParts.flatten, ?_, ?_⟩
  · simp only [parts, htype, hentryParts, hexitParts, hinParts, houtParts, hupdateParts,
      hregionParts, bind, Except.bind, pure, Except.pure]
  · have hmoved := rel_append (rel_append hentries hexits) hins
    exact rel_append (rel_append (rel_append hmoved houts) hupdates) (rel_flatten hregions)

theorem exists_start (hp : ofJson type values = .ok p) :
    ∃ start, p.values.member "start_line" = .ok start ∧ start.fileNumber = .ok p.file ∧
      start.lineNumber = .ok p.first := by
  simp only [ofJson, bind_eq_ok_iff] at hp
  obtain ⟨start, hstart, file, hfile, first, hfirst, finish, -, last, -, hp⟩ := hp
  cases hp
  exact ⟨start, hstart, hfile, hfirst⟩

theorem parts_of_ne {start : Json} (hstart : p.values.member "start_line" = .ok start)
    (hpipeline : p.type ≠ "pipeline")
    (hsimple : p.type ≠ "simple_gpu") (hcombined : p.type ≠ "combined_gpu") : p.parts = .ok [.single start] := by
  unfold parts
  split
  case h_1 htype => exact absurd htype hpipeline
  case h_2 htype => exact absurd htype hsimple
  case h_3 htype => exact absurd htype hcombined
  case h_4 =>
    rw [hstart]
    rfl

theorem exists_parts (hp : ofJson type values = .ok p) (hds : p.directives = .ok ds) :
    ∃ parts, p.parts = .ok parts ∧ Forall₂ (PatternPart.Made p.file) parts ds := by
  obtain ⟨start, hstart, -, hfirst⟩ := exists_start hp
  have hloop : ∀ type ∈ ["do_all", "reduction"], p.type = type → (do return [← p.loopDirective]) = .ok ds →
      ∃ parts, p.parts = .ok parts ∧ Forall₂ (PatternPart.Made p.file) parts ds := by
    intro type hmem htype hds
    obtain ⟨d, hd, hds⟩ := bind_eq_ok_iff.1 hds
    cases hds
    have hne : ∀ type ∈ ["do_all", "reduction"], type ≠ "pipeline" ∧ type ≠ "simple_gpu" ∧
      type ≠ "combined_gpu" := by
      decide
    obtain ⟨hpipeline, hsimple, hcombined⟩ := hne p.type (htype ▸ hmem)
    obtain ⟨clauses, -, hd⟩ := bind_eq_ok_iff.1 hd
    cases hd
    exact ⟨_, parts_of_ne hstart hpipeline hsimple hcombined, .cons ⟨⟨rfl, p.first, hfirst, rfl⟩, rfl⟩ .nil⟩
  unfold directives at hds
  split at hds
  case h_1 _ htype => exact hloop "do_all" (by decide) htype hds
  case h_2 _ htype => exact hloop "reduction" (by decide) htype hds
  case h_3 _ htype =>
    simp only [parts, htype]
    exact exists_listed (fun _ _ => stageDirective_made) hds
  case h_4 _ htype =>
    simp only [parts, htype]
    exact regionDirectives_made hds
  case h_5 _ htype => exact combinedDirectives_made htype hds
  case h_6 _ _ hpipeline hsimple hcombined =>
    cases hds
    exact ⟨_, parts_of_ne hstart hpipeline hsimple hcombined, .cons ⟨⟨rfl, p.first, hfirst, rfl⟩, rfl⟩ .nil⟩

/-- The directives of a pattern stand on the lines of the parts that they are made from, and all of
them in the right files exactly if every part but the loops lies in the file of the pattern. Into
that file the directives of all these parts are inserted, wherever they lie. -/
theorem directives_faithful_iff {type : String} {values : Json} (hp : ofJson type values = .ok p)
    {ds : List Directive} (hds : p.directives = .ok ds) :
    ∃ parts, p.parts = .ok parts ∧ List.Forall₂ (PatternPart.Made p.file) parts ds ∧
      List.Forall₂ (fun place d => d.IsOn p.file place) (parts.flatMap (PatternPart.inserted p.file))
        (Directive.nodesAll p.file ds) ∧
      (List.Forall₂ PatternPart.Faithful parts ds ↔
        ∀ part ∈ parts, ∀ place ∈ part.assigned, place.fileNumber = .ok p.file) := by
  obtain ⟨parts, hparts, hmade⟩ := exists_parts hp hds
  refine ⟨parts, hparts, hmade, PatternPart.forall₂_nodesAll hmade, ?_⟩
  exact forall₂_iff_forall_mem hmade fun part d h => h.faithful_iff

end PatternRecord

/-- A region for an accelerator with one loop, and a construct at a place. -/
def regionRecord (place : String) : Json :=
  let construct := .obj [("name", .str "#pragma omp target"), ("line", .str place),
    ("clauses", .arr []), ("positioning", .int 0)]
  let loop := .obj [("start_line", .str "1:1"), ("end_line", .str "1:2"), ("collapse", .int 1),
    ("constructs", .arr [construct])]
  .obj ([("start_line", .str "1:1"), ("end_line", .str "1:2"), ("contained_loops", .arr [loop])] ++
    PatternRecord.regionAttributes.map fun key => (key, .arr []))

/-- The construct of a region in the file of the region is for its own file and line. -/
theorem PatternRecord.directives_faithful_iff_regionRecord :
    ∃ p ds parts, ofJson "simple_gpu" (regionRecord "1:2") = .ok p ∧ p.directives = .ok ds ∧ p.parts = .ok parts ∧
      (ds.flatMap (·.children)).map (fun d => (d.file, d.first)) = [(some 1, some 2)] ∧
      List.Forall₂ PatternPart.Faithful parts ds := by
  obtain ⟨p, hp, ds, hds, hplaces, parts, hparts, hassigned⟩ :
      ∃ p ∈ (ofJson "simple_gpu" (regionRecord "1:2")).toOption, ∃ ds ∈ p.directives.toOption,
        (ds.flatMap (·.children)).map (fun d => (d.file, d.first)) = [(some 1, some 2)] ∧
        ∃ parts ∈ p.parts.toOption, ∀ part ∈ parts, ∀ place ∈ part.assigned, place.fileNumber = .ok p.file := by
    decide +kernel
  rw [mem_toOption_iff] at hp hds hparts
  obtain ⟨parts', hparts', -, -, hiff⟩ := directives_faithful_iff hp hds
  obtain rfl : parts' = parts := Except.ok.inj (hparts'.symm.trans hparts)
  exact ⟨p, ds, parts', hp, hds, hparts, hplaces, hiff.2 hassigned⟩

/-- Two files, the first of them with a loop. -/
def twoFiles : Files := { texts := .ofList [("main.c", "for (;;)\n  x();\ny();\n"),
    ("other.c", "a();\nb();\nc();\n")] }

/-- The text of the first of the two files with the directives of a pattern. -/
def firstTextWith (p : PatternRecord) : Option String :=
  ((Generation.addPattern twoFiles (.ofList [(1, "main.c"), (2, "other.c")]) none {} p).toOption.bind
    (·.buffers.get? 1)).map (·.close.text)

/-- A construct on the third line of the second file is made for the third line of the first file,
and is inserted there. -/
theorem PatternRecord.construct_in_wrong_file :
    ∃ p ds parts, ofJson "simple_gpu" (regionRecord "2:3") = .ok p ∧ p.directives = .ok ds ∧ p.parts = .ok parts ∧
      (ds.flatMap (·.children)).map (fun d => (d.file, d.first)) = [(some 1, some 3)] ∧
      ¬ List.Forall₂ PatternPart.Faithful parts ds ∧
      firstTextWith p = some "\nfor (;;)\n  x();\n#pragma omp target \ny();\n" := by
  obtain ⟨p, hp, ds, hds, hplaces, htext, parts, hparts, part, hpart, place, hplace, hfile⟩ :
      ∃ p ∈ (ofJson "simple_gpu" (regionRecord "2:3")).toOption, ∃ ds ∈ p.directives.toOption,
        (ds.flatMap (·.children)).map (fun d => (d.file, d.first)) = [(some 1, some 3)] ∧
        firstTextWith p = some "\nfor (;;)\n  x();\n#pragma omp target \ny();\n" ∧
        ∃ parts ∈ p.parts.toOption, ∃ part ∈ parts, ∃ place ∈ part.assigned, place.fileNumber ≠ .ok p.file := by
    decide +kernel
  rw [mem_toOption_iff] at hp hds hparts
  refine ⟨p, ds, parts, hp, hds, hparts, hplaces, fun hfaithful => ?_, htext⟩
  obtain ⟨parts', hparts', hmade⟩ := exists_parts hp hds
  obtain rfl : parts' = parts := Except.ok.inj (hparts'.symm.trans hparts)
  have hassigned := (forall₂_iff_forall_mem hmade fun part d h => h.faithful_iff).1 hfaithful
  exact hfile (hassigned part hpart place hplace)

end ParallelPatterns
