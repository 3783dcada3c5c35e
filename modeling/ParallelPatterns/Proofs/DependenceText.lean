import ParallelPatterns.Proofs.Cutting
import ParallelPatterns.Proofs.Specificity

/-!
# Writing and reading dependence files

A dependence file is written line by line: a line tells how often a loop ran, or lists the
dependences of a line of the program. Reading it gives back what was written, in order, first what
the file of the run says and then what the file of static dependences says. A type that was written
with an iteration level is read as staying inside an iteration of that level.

* `DependenceFile.addLine_of_words`: what reading does with the words of a listing line. *
`DependenceFile.addLine_text`: reading a written line adds what it says. *
`ProgramInput.loadDependences_written`: reading the written files.
-/

namespace ParallelPatterns

open List

open Text (IsWord)

/-- A word without the marks that divide a source from its variable and region. -/
def IsPlainWord (s : String) : Prop :=
  IsWord s ∧ '|' ∉ s.toList ∧ '(' ∉ s.toList ∧ ')' ∉ s.toList

instance (s : String) : Decidable (IsPlainWord s) := inferInstanceAs (Decidable (_ ∧ _ ∧ _ ∧ _))

/-- A dependence as a line lists it. -/
structure ListedDependence where
  type : String
  source : String
  var : String
  region : String
  isWord_type : IsWord type
  isPlainWord_source : IsPlainWord source
  isPlainWord_var : IsPlainWord var
  isPlainWord_region : IsPlainWord region

/-- What a line of a dependence file says. -/
inductive DependenceLine where
  | loop (count : LoopCount) (isWord_line : IsWord count.line)
  | listing (sink : String) (listed : List ListedDependence) (isWord_sink : IsWord sink) (ne_nil : listed ≠ [])

namespace ListedDependence

/-- The written source of a dependence. -/
def origin (d : ListedDependence) : String := d.source ++ "|" ++ d.var ++ "(" ++ d.region ++ ")"

/-- The dependence of an access on a line. -/
def record (sink : String) (d : ListedDependence) : DependenceRecord := ⟨sink, d.source, d.type, d.var, d.region⟩

theorem isWord_origin (d : ListedDependence) : IsWord d.origin := by
  refine ⟨?_, fun c hc => ?_⟩
  · simp [origin]
  · simp only [origin, String.toList_append, mem_append] at hc
    rcases hc with ((((hc | hc) | hc) | hc) | hc) | hc
    · exact d.isPlainWord_source.1.2 c hc
    · obtain rfl : c = '|' := by simpa using hc
      decide
    · exact d.isPlainWord_var.1.2 c hc
    · obtain rfl : c = '(' := by simpa using hc
      decide
    · exact d.isPlainWord_region.1.2 c hc
    · obtain rfl : c = ')' := by simpa using hc
      decide

end ListedDependence

namespace DependenceLine

/-- The words of a line. -/
def words : DependenceLine → List String
  | loop count _ =>
    [count.line, "BGN", "loop", toString count.total, toString count.entries,
      toString count.average, toString count.maximum]
  | listing sink listed _ _ => sink :: "NOM" :: listed.flatMap fun d => [d.type, d.origin]

/-- The text of a line, without its end. -/
def text (l : DependenceLine) : String := " ".intercalate l.words

/-- The text of a file. -/
def written (ls : List DependenceLine) : String := String.join (ls.map fun l => l.text ++ "\n")

/-- The dependences that a line lists. -/
def records : DependenceLine → List DependenceRecord
  | loop _ _ => []
  | listing sink listed _ _ => listed.map (·.record sink)

/-- The loop counts that a line tells. -/
def counts : DependenceLine → List LoopCount
  | loop count _ => [count]
  | listing _ _ _ _ => []

theorem isWord_words (l : DependenceLine) : ∀ w ∈ l.words, IsWord w := by
  intro w hw
  cases l with
  | loop count hline =>
    simp only [words, mem_cons, not_mem_nil, or_false] at hw
    rcases hw with rfl | rfl | rfl | rfl | rfl | rfl | rfl
    · exact hline
    · decide
    · decide
    all_goals exact Text.isWord_toString _
  | listing sink listed hsink hne =>
    simp only [words, mem_cons, mem_flatMap, not_mem_nil, or_false] at hw
    rcases hw with rfl | rfl | ⟨d, -, rfl | rfl⟩
    · exact hsink
    · decide
    · exact d.isWord_type
    · exact d.isWord_origin

theorem words_text (l : DependenceLine) : Text.words (l.text ++ "\n") = l.words :=
  Text.words_intercalate l.isWord_words

end DependenceLine

/-! ## Reading a line -/

theorem number_toString (n : Int) : number (toString n) = .ok n := by
  unfold number
  rw [Text.integer?_toString]

namespace DependenceRecord

theorem pairs_flatMap {α : Type} (type source : α → String) (xs : List α) :
    pairs (xs.flatMap fun x => [type x, source x]) = xs.map fun x => (type x, source x) := by
  induction xs with
  | nil => rfl
  | cons x xs ih => simp [pairs, ih]

theorem variableAndRegion_append {var region : String} (hvar : '(' ∉ var.toList) (hregion : '(' ∉ region.toList) :
    variableAndRegion (var ++ "(" ++ (region ++ ")")) = (var, region) := by
  have hbracket : "(".toList = ['('] := rfl
  have hparts : Text.split "(" (var ++ "(" ++ (region ++ ")")) = [var, region ++ ")"] := by
    rw [Text.split_cons hbracket hvar, Text.split_eq_singleton hbracket]
    simpa using hregion
  rw [variableAndRegion, hparts]
  exact congrArg (Prod.mk var) (Text.dropEnd_append region ")")

theorem ofPair_origin (sink : String) (d : ListedDependence) : ofPair sink d.type d.origin = d.record sink := by
  obtain ⟨-, hsource, -, -⟩ := d.isPlainWord_source
  obtain ⟨-, hvar, hvarOpen, -⟩ := d.isPlainWord_var
  obtain ⟨-, hregion, hregionOpen, -⟩ := d.isPlainWord_region
  have hbar : "|".toList = ['|'] := rfl
  have horigin : d.origin = d.source ++ "|" ++ (d.var ++ "(" ++ (d.region ++ ")")) := by
    simp [ListedDependence.origin, String.append_assoc]
  have hparts : Text.split "|" d.origin = [d.source, d.var ++ "(" ++ (d.region ++ ")")] := by
    rw [horigin, Text.split_cons hbar hsource, Text.split_eq_singleton hbar]
    simp [hvar, hregion]
  rw [ofPair, hparts]
  simp only [variableAndRegion_append hvarOpen hregionOpen]
  rfl

end DependenceRecord

namespace DependenceFile

open DependenceLine

theorem addLine_of_words {α : Type} {line sink : String} {type source : α → String} {xs : List α} (hne : xs ≠ [])
    (hwords : Text.words line = sink :: "NOM" :: xs.flatMap fun x => [type x, source x])
    (f : DependenceFile) : f.addLine line =
      .ok { f with
        dependences := f.dependences ++ xs.map fun x => DependenceRecord.ofPair sink (type x) (source x) } := by
  have htag : word (Text.words line) 1 = .ok "NOM" := by rw [hwords]; rfl
  have hfirst : word (Text.words line) 0 = .ok sink := by rw [hwords]; rfl
  have hlength : ¬ (Text.words line).length < 4 := by
    obtain ⟨x, rest, rfl⟩ := exists_cons_of_ne_nil hne
    simp [hwords]
  have hpairs : DependenceRecord.pairs ((Text.words line).drop 2) = xs.map fun x => (type x, source x) := by
    rw [hwords]
    exact DependenceRecord.pairs_flatMap type source xs
  have hbegin : ¬ ("NOM" == "BGN") := by decide
  have hlisting : ¬ (decide ((Text.words line).length < 4) || "NOM" != "NOM") := by simpa using hlength
  simp only [addLine, htag, hfirst, hpairs, bind, Except.bind, if_neg hbegin, if_neg hlisting, map_map]
  rfl

theorem numberAt_of_get? {ws : List String} {i : Nat} {n : Int} (h : ws[i]? = some (toString n)) :
    numberAt ws i = .ok n := by
  have hword : word ws i = .ok (toString n) := getDM_eq_ok_iff.2 h
  simp only [numberAt, hword, bind, Except.bind, number_toString]

theorem addLine_of_loop {line : String} {count : LoopCount} {hline : IsWord count.line}
    (hwords : Text.words line = (loop count hline).words) (f : DependenceFile) :
    f.addLine line = .ok { f with loops := f.loops ++ [count] } := by
  have hcount : loopCount (loop count hline).words = .ok count := by
    have hfirst : word (loop count hline).words 0 = .ok count.line := rfl
    have htotal : numberAt (loop count hline).words 3 = .ok count.total := numberAt_of_get? rfl
    have hentries : numberAt (loop count hline).words 4 = .ok count.entries := numberAt_of_get? rfl
    have haverage : numberAt (loop count hline).words 5 = .ok count.average := numberAt_of_get? rfl
    have hmaximum : numberAt (loop count hline).words 6 = .ok count.maximum := numberAt_of_get? rfl
    simp only [loopCount, hfirst, htotal, hentries, haverage, hmaximum, bind, Except.bind]
    rfl
  have htag : word (loop count hline).words 1 = .ok "BGN" := rfl
  have hwhat : word (loop count hline).words 2 = .ok "loop" := rfl
  have hbegin : ("BGN" == "BGN") := rfl
  have hloop : ("loop" == "loop") := rfl
  simp only [addLine, hwords, htag, hwhat, hcount, bind, Except.bind, if_pos hbegin, if_pos hloop]
  rfl

theorem addLine_text (f : DependenceFile) (l : DependenceLine) :
    f.addLine (l.text ++ "\n") =
      .ok { dependences := f.dependences ++ l.records, loops := f.loops ++ l.counts } := by
  cases l with
  | loop count hline =>
    rw [addLine_of_loop (words_text _)]
    simp [records, counts]
  | listing sink listed hsink hne =>
    rw [addLine_of_words hne (words_text _)]
    simp [records, counts, DependenceRecord.ofPair_origin]

theorem foldlM_addLine_text (f : DependenceFile) (ls : List DependenceLine) :
    (ls.map fun l => l.text ++ "\n").foldlM addLine f =
      .ok { dependences := f.dependences ++ ls.flatMap (·.records),
            loops := f.loops ++ ls.flatMap (·.counts) } := by
  induction ls generalizing f with
  | nil => simp [pure, Except.pure]
  | cons l ls ih =>
    rw [map_cons, foldlM_cons, addLine_text]
    exact (ih _).trans (by simp)

end DependenceFile

/-! ## Reading the files -/

namespace DependenceLine

theorem notMem_text (l : DependenceLine) {c : Char} (hc : Text.isBlank c) (hne : c ≠ ' ') : c ∉ l.text.toList :=
  Text.notMem_intercalate (by simpa using hne) fun w hw => (l.isWord_words w hw).notMem hc

theorem written_eq (ls : List DependenceLine) : written ls = String.join ((ls.map text).map (· ++ "\n")) := by
  rw [map_map]
  rfl

theorem plainLineEnds_written (ls : List DependenceLine) : Text.plainLineEnds (written ls) = written ls := by
  apply Text.plainLineEnds_eq_self
  rw [written_eq]
  refine Text.notMem_join (fun t ht => ?_) (by decide)
  obtain ⟨l, -, rfl⟩ := mem_map.1 ht
  exact l.notMem_text (by decide) (by decide)

theorem feedLines_written (ls : List DependenceLine) :
    Text.feedLines (written ls) = ls.map fun l => l.text ++ "\n" := by
  rw [written_eq, Text.feedLines_join, map_map]
  · rfl
  · intro t ht
    obtain ⟨l, -, rfl⟩ := mem_map.1 ht
    exact l.notMem_text (by decide) (by decide)

end DependenceLine

theorem Dependence.parseKind_level (k : DependenceKind) (n : Nat) :
    parseKind (k.name ++ "_II_" ++ toString n) = .ok (k, some (n : Int)) := by
  have hmark : Text.has "_II_" (k.name ++ "_II_" ++ toString n) :=
    Text.has_iff_isInfix.2 ⟨k.name.toList, (toString n).toList, by rw [String.toList_append, String.toList_append]⟩
  have hlevel : Text.afterLast "_" (k.name ++ "_II_" ++ toString n) = toString (n : Int) := by
    have hsplit : k.name ++ "_II_" ++ toString n = k.name ++ "_II" ++ "_" ++ toString (n : Int) := by
      have hmark : "_II_" = "_II" ++ "_" := rfl
      rw [hmark, ← String.append_assoc]
      rfl
    have hdigits : '_' ∉ (toString (n : Int)).toList := fun hc => absurd (Text.eq_sign_or_isDigit hc) (by decide)
    have hsep : "_".toList = ['_'] := rfl
    rw [hsplit, Text.afterLast_append hsep _ hdigits]
  have hname : (Text.cut "_" (k.name ++ "_II_" ++ toString n)).1 = k.name := by
    have hsplit : k.name ++ "_II_" ++ toString n = k.name ++ String.singleton '_' ++ ("II_" ++ toString n) := by
      simp only [String.append_assoc]
      rfl
    have hplain : '_' ∉ k.name.toList := by cases k <;> decide
    exact hsplit ▸ congrArg Prod.fst (Text.cut_append hplain _)
  have hkind : DependenceKind.ofName? k.name = some k := by cases k <;> rfl
  simp only [parseKind, if_pos hmark, hlevel, number_toString, hname, hkind, bind, Except.bind]
  rfl

namespace ProgramInput

/-- Where the static dependences lie. -/
def staticPath (paths : ProgramPaths) : String :=
  Files.join (Files.directoryOf (Files.absolute paths.units)) "static_dependencies.txt"

/-- A file holds the written lines; a file that is not there holds none. -/
def Holds (files : Files) (path : String) (ls : List DependenceLine) : Prop :=
  files.raw? path = some (DependenceLine.written ls) ∨ files.present path = false ∧ ls = []

theorem read_of_raw? {files : Files} {path : String} {ls : List DependenceLine}
    (h : files.raw? path = some (DependenceLine.written ls)) :
    files.read path = .ok (DependenceLine.written ls) := by
  rw [Files.read, h]
  exact congrArg Except.ok (DependenceLine.plainLineEnds_written ls)

theorem loadDependences_eq {files : Files} {paths : ProgramPaths} {recorded additional : List DependenceLine}
    (hrecorded : files.raw? paths.dependences = some (DependenceLine.written recorded))
    (hadditional : Holds files (staticPath paths) additional) :
    loadDependences files paths =
      DependenceFile.parse (Text.feedLines (DependenceLine.written recorded) ++
        Text.feedLines (DependenceLine.written additional)) := by
  unfold loadDependences
  rw [read_of_raw? hrecorded]
  rcases hadditional with hpresent | ⟨habsent, rfl⟩
  · have hread := read_of_raw? hpresent
    have hpresent : files.present (staticPath paths) := by simp [Files.present, Files.isFile, hpresent]
    unfold staticPath at hread hpresent
    simp only [bind, Except.bind, if_pos hpresent, hread]
  · unfold staticPath at habsent
    simp only [bind, Except.bind, habsent, if_neg Bool.false_ne_true]
    rfl

/-- Reading the dependences of a run gives what was written, in order: first the dependences and
loop counts of the run, then the static ones. A type with an iteration level is read as staying
inside an iteration of that level. -/
theorem loadDependences_written {files : Files} {paths : ProgramPaths} {recorded additional : List DependenceLine}
    (hrecorded : files.raw? paths.dependences = some (DependenceLine.written recorded))
    (hadditional : Holds files (staticPath paths) additional) :
    loadDependences files paths =
        .ok { dependences := (recorded ++ additional).flatMap (·.records)
              loops := (recorded ++ additional).flatMap (·.counts) } ∧
      ∀ (sink source : String) (k : DependenceKind) (n : Nat) (var region : Option String),
        Dependence.ofRecord sink source (k.name ++ "_II_" ++ toString n) var region =
          .ok { edge := .data, kind := some k, var, region, sourceLine := some source, sinkLine := some sink
                intraIteration := true, level := n } := by
  refine ⟨?_, ?_⟩
  · rw [loadDependences_eq hrecorded hadditional, DependenceLine.feedLines_written,
      DependenceLine.feedLines_written, ← map_append]
    exact DependenceFile.foldlM_addLine_text {} (recorded ++ additional)
  · intro sink source k n var region
    simp only [Dependence.ofRecord, Dependence.parseKind_level, bind, Except.bind]
    rfl

/-- A loop that ran ten times, a read inside of its iterations with the first write before, and a
write that is known without a run. -/
def loopRecords : List DependenceLine × List DependenceLine :=
  ([.loop ⟨"1:3", 10, 1, 10, 10⟩ (by decide),
    .listing "1:5" [⟨"RAW_II_0", "1:4", "x", "GEPRESULT_a", by decide, by decide, by decide, by decide⟩,
      ⟨"INIT", "*", "x", "m7", by decide, by decide, by decide, by decide⟩] (by decide) (cons_ne_nil _ _)],
   [.listing "1:4" [⟨"WAW", "1:2", "y", "m8", by decide, by decide, by decide, by decide⟩] (by decide)
      (cons_ne_nil _ _)])

/-- The store with the two files of these lines. -/
def loopFiles : Files :=
  (Files.place {} "data/dp_run_dep.txt" (DependenceLine.written loopRecords.1)).place
    "data/static_dependencies.txt" (DependenceLine.written loopRecords.2)

theorem loadDependences_written_loopFiles :
    loopFiles.raw? ({} : ProgramPaths).dependences = some (DependenceLine.written loopRecords.1) ∧
      Holds loopFiles (staticPath {}) loopRecords.2 ∧
      loadDependences loopFiles {} =
        .ok { dependences := [⟨"1:5", "1:4", "RAW_II_0", "x", "GEPRESULT_a"⟩, ⟨"1:5", "*", "INIT", "x", "m7"⟩,
                ⟨"1:4", "1:2", "WAW", "y", "m8"⟩]
              loops := [⟨"1:3", 10, 1, 10, 10⟩] } := by
  have hrecorded : loopFiles.raw? ({} : ProgramPaths).dependences =
    some (DependenceLine.written loopRecords.1) := by
    rfl
  have hadditional : Holds loopFiles (staticPath {}) loopRecords.2 := .inl (by rfl)
  exact ⟨hrecorded, hadditional, (loadDependences_written hrecorded hadditional).1⟩

end ProgramInput

end ParallelPatterns
