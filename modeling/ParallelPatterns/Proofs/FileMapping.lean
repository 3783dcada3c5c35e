import Mathlib.Data.List.Nodup
import ParallelPatterns.Compiler.Wrapper
import ParallelPatterns.Input.FileMapping
import ParallelPatterns.Proofs.Computation
import ParallelPatterns.Proofs.Paths

/-!
# Writing and reading the file mapping

The file mapping is written when sources are compiled, and read in two ways: by the number that
stands on a line, and by the place of the line. Both readers find under a number the same path, as
long as no path holds a tab or a line end. The paths are plain: none of their parts is empty, leads
to the same directory or up, or is read as the working directory, so that a path denotes itself in
every store.
-/

namespace ParallelPatterns.Files

open List Text

variable {p : String}

/-- A path of names. -/
def IsPlain (p : String) : Prop :=
  ∀ n ∈ Text.split "/" p, n ≠ "" ∧ n ≠ "." ∧ n ≠ ".." ∧ begins workingDirectory n = false

instance (p : String) : Decidable (IsPlain p) :=
  List.decidableBAll (fun n => n ≠ "" ∧ n ≠ "." ∧ n ≠ ".." ∧ begins workingDirectory n = false) (Text.split "/" p)

/-- All files and directories of the store have plain paths. -/
def IsPlainStore (f : Files) : Prop := ∀ k ∈ f.texts.keys ++ f.folders, IsPlain k

theorem intercalate_split (p : String) : "/".intercalate (split "/" p) = p :=
  Text.intercalate_split (c := '/') rfl p

theorem isPlain_append_iff {q : String} : IsPlain (p ++ "/" ++ q) ↔ IsPlain p ∧ IsPlain q := by
  rw [IsPlain, split_append rfl, forall_mem_append]
  rfl

section

variable (h : IsPlain p)
include h

theorem IsPlain.isName : ∀ n ∈ split "/" p, IsName n := fun n hn =>
  ⟨⟨(h n hn).1, notMem_of_mem_split (c := '/') rfl hn⟩, (h n hn).2.1, (h n hn).2.2.1⟩

theorem IsPlain.ne_empty : p ≠ "" := by
  rintro rfl
  exact absurd h (by decide)

theorem IsPlain.take (n : Nat) (hn : n < (split "/" p).length) :
    IsPlain ("/".intercalate ((split "/" p).take (n + 1))) := by
  have hne : (split "/" p).take (n + 1) ≠ [] :=
    ne_nil_of_length_pos (by rw [length_take]; omega)
  have hdivider : ∀ m ∈ (split "/" p).take (n + 1), '/' ∉ m.toList := fun m hm =>
    notMem_of_mem_split rfl (mem_of_mem_take hm)
  rw [IsPlain, split_intercalate rfl hne hdivider]
  exact fun m hm => h m (mem_of_mem_take hm)

/-! ### What a plain path denotes -/

theorem IsPlain.not_begins_root : begins "/" p = false := by
  rw [Bool.eq_false_iff]
  intro hbegin
  obtain ⟨r, hr⟩ := begins_iff.1 hbegin
  obtain rfl : "" ++ "/" ++ String.ofList r = p := by
    rw [← String.toList_inj, ← hr]
    simp
  exact (isPlain_append_iff.1 h).1.ne_empty rfl

theorem IsPlain.not_begins_work : begins workingDirectory p = false := by
  rw [Bool.eq_false_iff]
  intro hbegin
  have hdivider : "/".toList = ['/'] := rfl
  rcases exists_of_split hdivider p with ⟨-, hsplit⟩ | ⟨first, rest, rfl, -, hsplit⟩
  · have hfirst := (h p (by simp [hsplit])).2.2.2
    exact absurd hbegin (by simp [hfirst])
  · -- the divider behind the first name does not stand in the working directory
    have hfirst := (h first (by simp [hsplit])).2.2.2
    refine absurd ?_ (Bool.eq_false_iff.1 hfirst)
    rw [begins_iff] at hbegin ⊢
    have hparts : workingDirectory.toList <+: first.toList ++ '/' :: rest.toList := by simpa using hbegin
    rcases prefix_or_prefix_of_prefix hparts (prefix_append _ _) with hle | ⟨r, hr⟩
    · exact hle
    · cases r with
      | nil => exact ⟨[], by simpa using hr.symm⟩
      | cons c r =>
        rw [← hr, prefix_append_right_inj, cons_prefix_cons] at hparts
        have hmem : '/' ∈ workingDirectory.toList := by simp [← hr, hparts.1]
        exact absurd hmem (by decide)

theorem IsPlain.ne_work : p ≠ workingDirectory := by
  rintro rfl
  exact absurd h (by decide)

theorem IsPlain.not_begins_work_divider : begins (workingDirectory ++ "/") p = false := by
  rw [Bool.eq_false_iff]
  intro hbegin
  refine absurd ?_ (Bool.eq_false_iff.1 h.not_begins_work)
  rw [begins_iff] at hbegin ⊢
  exact (by simp : workingDirectory.toList <+: (workingDirectory ++ "/").toList).trans hbegin

theorem IsPlain.partsOf : partsOf p = split "/" p :=
  filter_eq_self.2 fun n hn => by simpa using (h n hn).1

theorem IsPlain.parts? : parts? p = some (split "/" p) := by
  rw [parts?_eq, if_neg h.ne_work, if_neg (by simp [h.not_begins_work_divider]),
    if_neg (by simp [h.not_begins_root]), h.partsOf]

end

theorem resolveGo_names (f : Files) {ns : List String} (hns : ∀ n ∈ ns, IsName n)
    (acc : List String) : f.resolveGo acc ns = some (acc.reverse ++ ns) := by
  induction ns generalizing acc with
  | nil => simp [resolveGo]
  | cons n ns ih =>
    have hn := hns n (by simp)
    rw [resolveGo_cons f acc hn.ne_here hn.ne_up, ih fun m hm => hns m (by simp [hm])]
    simp

theorem IsPlain.resolve? (h : IsPlain p) (f : Files) : f.resolve? p = some p := by
  rw [Files.resolve?, if_neg (by simpa using h.ne_empty), h.parts?]
  simp only [resolveGo_names f h.isName, reverse_nil, nil_append, Option.map_some,
    intercalate_split]

theorem IsPlain.isFile_iff (h : IsPlain p) (f : Files) : f.isFile p ↔ p ∈ f.texts.keys := by
  rw [isFile, raw?, h.resolve?, Option.bind_some, Table.mem_keys_iff]

theorem normalGo_names {ns : List String} (hns : ∀ n ∈ ns, IsName n) (acc : List String) :
    normalGo acc ns = acc.reverse ++ ns := by
  induction ns generalizing acc with
  | nil => simp [normalGo]
  | cons n ns ih =>
    have hn := hns n (by simp)
    rw [normalGo, if_neg (by simp [hn.isPart.1, hn.ne_here]), if_neg (by simp [hn.ne_up]),
      ih fun m hm => hns m (by simp [hm])]
    simp

theorem IsPlain.absolute (h : IsPlain p) : absolute p = workingDirectory ++ "/" ++ p := by
  have hnames : normalGo [] (split "/" p) = split "/" p := by simpa using normalGo_names h.isName []
  have hne : (split "/" p).isEmpty = false := isEmpty_eq_false_iff.2 (split_ne_nil _ p)
  simp only [Files.absolute, h.not_begins_root, h.not_begins_work_divider, beq_iff_eq, h.ne_work,
    if_false, Bool.false_eq_true, hnames, hne, intercalate_split]

/-! ### Below a directory -/

/-- What a path below a directory begins with; the empty path is that of the working directory. -/
def folderStart (d : String) : String := if d = "" then "" else d ++ "/"

/-- The path of what lies at a path below a directory. -/
def inFolder (d p : String) : String := folderStart d ++ p

theorem inFolder_empty (p : String) : inFolder "" p = p := String.empty_append

theorem inFolder_of_ne {d : String} (hd : d ≠ "") (p : String) : inFolder d p = d ++ "/" ++ p := by
  rw [inFolder, folderStart, if_neg hd]

/-- The path of a directory that names lead to, or that of the working directory. -/
def IsFolderPath (d : String) : Prop := d = "" ∨ IsPlain d

theorem inFolder_injective (d : String) : Function.Injective (inFolder d) := by
  intro p q h
  rw [inFolder, inFolder, ← String.toList_inj, String.toList_append, String.toList_append] at h
  exact String.toList_inj.1 (append_cancel_left h)

theorem isPlain_inFolder_iff {d : String} (hd : IsFolderPath d) : IsPlain (inFolder d p) ↔ IsPlain p := by
  rcases hd with rfl | hd
  · rw [inFolder_empty]
  · rw [inFolder_of_ne hd.ne_empty, isPlain_append_iff]
    exact and_iff_right hd

theorem IsPlain.not_ends (h : IsPlain p) : ends "/" p = false := by
  rw [Bool.eq_false_iff]
  intro hend
  obtain ⟨r, hr⟩ := isSuffixOf_iff_suffix.1 hend
  obtain rfl : String.ofList r ++ "/" ++ "" = p := by
    rw [← String.toList_inj, ← hr]
    simp
  exact (isPlain_append_iff.1 h).2.ne_empty rfl

theorem IsPlain.join {d : String} (h : IsPlain p) (hd : IsFolderPath d) : join d p = inFolder d p := by
  rw [Files.join, if_neg (by simp [h.not_begins_root, h.not_begins_work])]
  rcases hd with rfl | hd
  · simp [inFolder_empty]
  · simp [inFolder_of_ne, hd.ne_empty, hd.not_ends]

theorem directoryOf_inFolder {d name : String} (hd : IsFolderPath d) (hname : '/' ∉ name.toList) :
    directoryOf (inFolder d name) = d := by
  rcases hd with rfl | hd
  · have hfind : findLast? "/" name = none := findLastGo_of_notMem hname 0
    rw [inFolder_empty, directoryOf, hfind]
  · obtain ⟨s, p, heq, hp⟩ := exists_append_part (split_ne_nil _ d) fun n hn => (hd.isName n hn).isPart
    rw [intercalate_split] at heq
    rw [inFolder_of_ne hd.ne_empty, heq, directoryOf_append hp hname]

theorem mem_below_iff {f : Files} {d : String} : p ∈ f.below d ↔
    ∃ rest, inFolder d rest ∈ f.texts.keys ++ f.folders ∧
      ∃ n < (partsOf rest).length, "/".intercalate ((partsOf rest).take (n + 1)) = p := by
  have hstart : (if (d == "") then "" else d ++ "/") = folderStart d := by
    simp only [folderStart, beq_iff_eq]
  simp only [below, hstart, mem_distinct, mem_flatMap, mem_filterMap, mem_map, mem_range]
  constructor
  · rintro ⟨rest, ⟨k, hk, hrest⟩, n, hn, hp⟩
    split at hrest
    · next hbegin =>
      obtain ⟨r, hr⟩ := begins_iff.1 hbegin
      obtain rfl : inFolder d (String.ofList r) = k := by
        rw [inFolder, ← String.toList_inj, ← hr]
        simp
      rw [inFolder, drop_length_append, Option.some.injEq] at hrest
      subst hrest
      exact ⟨_, hk, n, hn, hp⟩
    · cases hrest
  · rintro ⟨rest, hk, n, hn, hp⟩
    refine ⟨rest, ⟨_, hk, ?_⟩, n, hn, hp⟩
    rw [inFolder, if_pos (begins_append _ _), drop_length_append]

namespace IsPlainStore

variable {f : Files} {d : String}

theorem isPlain_rest (h : f.IsPlainStore) (hd : IsFolderPath d) {rest : String}
    (hrest : inFolder d rest ∈ f.texts.keys ++ f.folders) : IsPlain rest :=
  (isPlain_inFolder_iff hd).1 (h _ hrest)

theorem isPlain_of_mem_below (h : f.IsPlainStore) (hd : IsFolderPath d) (hp : p ∈ f.below d) : IsPlain p := by
  obtain ⟨rest, hrest, n, hn, rfl⟩ := mem_below_iff.1 hp
  have hplain := h.isPlain_rest hd hrest
  rw [hplain.partsOf] at hn ⊢
  exact hplain.take n hn

theorem mem_below (h : f.IsPlainStore) (hd : IsFolderPath d) {rest : String}
    (hrest : inFolder d rest ∈ f.texts.keys ++ f.folders) : rest ∈ f.below d := by
  have hplain := h.isPlain_rest hd hrest
  have hpos : 0 < (split "/" rest).length := length_pos_of_ne_nil (split_ne_nil _ rest)
  refine mem_below_iff.2 ⟨rest, hrest, (split "/" rest).length - 1, ?_, ?_⟩
  · rw [hplain.partsOf]
    omega
  · rw [hplain.partsOf, Nat.sub_add_cancel hpos, take_length, intercalate_split]

end IsPlainStore

end ParallelPatterns.Files

/-! ## The file mapping -/

namespace ParallelPatterns.FileMapping

open List Text Files

variable {p path : String}

/-! ### The text -/

/-- A path that is one field of one line. -/
def IsField (p : String) : Prop := '\t' ∉ p.toList ∧ ∀ c ∈ p.toList, isLineEnd c = false

instance (p : String) : Decidable (IsField p) :=
  @instDecidableAnd ('\t' ∉ p.toList) (∀ c ∈ p.toList, isLineEnd c = false) inferInstance
    (List.decidableBAll _ p.toList)

/-- A line of the file mapping, without its end. -/
def numberedLine (n : Nat) (p : String) : String := toString n ++ "\t" ++ p

def numberedLines (n : Nat) (paths : List String) : List String :=
  (paths.zipIdx n).map fun e => numberedLine (e.2 + 1) e.1

variable (paths : List String)

theorem map_snd_zipIdx : paths.zipIdx.map (·.2) = range paths.length := by
  rw [zipIdx_map_snd, range_eq_range']

theorem text_eq_join : text paths = String.join ((numberedLines 0 paths).map (· ++ "\n")) := by
  rw [numberedLines, map_map]
  rfl

variable (n : Nat)

theorem numberedLines_cons (p : String) (paths : List String) :
    numberedLines n (p :: paths) = numberedLine (n + 1) p :: numberedLines (n + 1) paths := rfl

theorem getElem?_numberedLines (i : Nat) : (numberedLines 0 paths)[i]? = paths[i]?.map (numberedLine (i + 1)) := by
  rw [numberedLines, getElem?_map, getElem?_zipIdx, Option.map_map, Nat.zero_add]
  rfl

theorem isWord_number : IsWord (toString n) := isWord_toString n

theorem integer?_number : integer? (toString n) = some (n : Int) := integer?_toString n

theorem IsField.not_isLineEnd (h : IsField p) (n : Nat) : ∀ c ∈ (numberedLine n p).toList, isLineEnd c = false := by
  intro c hc
  rw [Bool.eq_false_iff]
  intro hend
  simp only [numberedLine, String.toList_append, mem_append] at hc
  rcases hc with (hc | hc) | hc
  · exact (isWord_number n).notMem (isBlank_of_isLineEnd hend) hc
  · obtain rfl : c = '\t' := by simpa using hc
    exact absurd hend (by decide)
  · exact absurd hend (by simp [h.2 c hc])

theorem IsField.split_numberedLine (h : IsField p) (n : Nat) : split "\t" (numberedLine n p) = [toString n, p] := by
  rw [numberedLine, split_cons rfl ((isWord_number n).notMem (by decide)),
    split_eq_singleton rfl h.1]

section Text

variable {paths : List String}

variable (hpaths : ∀ p ∈ paths, IsField p)
include hpaths

theorem not_isLineEnd_of_mem_numberedLines (n : Nat) :
    ∀ l ∈ numberedLines n paths, ∀ c ∈ l.toList, isLineEnd c = false := by
  intro l hl
  obtain ⟨e, he, rfl⟩ := mem_map.1 hl
  exact (hpaths e.1 (fst_mem_of_mem_zipIdx he)).not_isLineEnd _

theorem lines_text : lines (text paths) = numberedLines 0 paths := by
  rw [text_eq_join, lines_join (not_isLineEnd_of_mem_numberedLines hpaths 0)]

theorem plainLineEnds_text : plainLineEnds (text paths) = text paths := by
  rw [text_eq_join]
  refine plainLineEnds_eq_self (notMem_join (fun l hl hmem => ?_) (by decide))
  exact absurd (not_isLineEnd_of_mem_numberedLines hpaths 0 l hl _ hmem) (by decide)

theorem feedLines_text : feedLines (text paths) = (numberedLines 0 paths).map (· ++ "\n") := by
  rw [text_eq_join]
  refine feedLines_join fun l hl hmem => ?_
  exact absurd (not_isLineEnd_of_mem_numberedLines hpaths 0 l hl _ hmem) (by decide)

end Text

/-! ### The readers -/

theorem addLine_numberedLine (hp : IsField p) (n : Nat) (t : Table Int String) :
    addLine t (numberedLine n p ++ "\n") = .ok (t.insert n (plainPath p)) := by
  have hfeed : '\n' ∉ (numberedLine n p).toList := fun hmem => absurd (hp.not_isLineEnd n _ hmem) (by decide)
  simp only [addLine, replace_feed hfeed, hp.split_numberedLine, integer?_number]
  rfl

theorem foldlM_addLine {paths : List String} (hpaths : ∀ p ∈ paths, IsField p) (n : Nat)
    (t : Table Int String) (ht : ∀ k ∈ t.keys, k ≤ n) :
    ((numberedLines n paths).map (· ++ "\n")).foldlM addLine t =
      .ok ⟨t.entries ++ (paths.zipIdx n).map fun e => ((e.2 : Int) + 1, plainPath e.1)⟩ := by
  induction paths generalizing n t with
  | nil => simp [numberedLines, pure, Except.pure]
  | cons p paths ih =>
    have hnew : ((n + 1 : Nat) : Int) ∉ t.keys := fun hmem => by
      have := ht _ hmem
      omega
    have hentries := Table.entries_insert_of_notMem hnew (plainPath p)
    have hkeys : ∀ k ∈ (t.insert ((n + 1 : Nat) : Int) (plainPath p)).keys, k ≤ ((n + 1 : Nat) : Int) := by
      intro k hk
      rw [Table.keys_insert, mem_addNew] at hk
      rcases hk with hk | rfl
      · have := ht k hk
        omega
      · exact Int.le_refl _
    rw [numberedLines_cons, map_cons, foldlM_cons, addLine_numberedLine (hpaths p mem_cons_self)]
    refine (ih (fun q hq => hpaths q (mem_cons_of_mem p hq)) (n + 1) _ hkeys).trans ?_
    rw [hentries]
    simp

def numberedTable (paths : List String) : Table Int String := ⟨paths.zipIdx.map fun e => ((e.2 : Int) + 1, e.1)⟩

theorem keys_numberedTable :
    (numberedTable paths).keys = (range paths.length).map fun i : Nat => (i : Int) + 1 := by
  rw [← map_snd_zipIdx, map_map, numberedTable, Table.keys, map_map]
  rfl

theorem nodup_keys_numberedTable : (numberedTable paths).keys.Nodup := by
  rw [keys_numberedTable]
  refine nodup_range.map fun i j h => ?_
  omega

variable {paths} {directory : String} {id : Int}

theorem get?_numberedTable :
    (numberedTable paths).get? id = some p ↔ ∃ i : Nat, id = i + 1 ∧ paths[i]? = some p := by
  rw [Table.get?_eq_some_iff (nodup_keys_numberedTable paths)]
  constructor
  · intro hmem
    obtain ⟨e, he, heq⟩ := mem_map.1 hmem
    obtain ⟨rfl, rfl⟩ := Prod.mk.inj heq
    exact ⟨e.2, rfl, mk_mem_zipIdx_iff_getElem?.1 he⟩
  · rintro ⟨i, rfl, hi⟩
    exact mem_map.2 ⟨(p, i), mk_mem_zipIdx_iff_getElem?.2 hi, rfl⟩

theorem get?_numberedTable_succ {i : Nat} :
    (numberedTable paths).get? (i + 1) = some p ↔ paths[i]? = some p := by
  rw [get?_numberedTable]
  constructor
  · rintro ⟨j, hj, hp⟩
    obtain rfl : i = j := by omega
    exact hp
  · exact fun hp => ⟨i, rfl, hp⟩

theorem eq_of_get?_numberedTable (hnodup : paths.Nodup) {id' : Int}
    (h : (numberedTable paths).get? id = some p) (h' : (numberedTable paths).get? id' = some p) : id = id' := by
  obtain ⟨i, rfl, hi⟩ := get?_numberedTable.1 h
  obtain ⟨j, rfl, hj⟩ := get?_numberedTable.1 h'
  obtain rfl : i = j := (getElem?_inj (List.getElem?_eq_some_iff.1 hi).1 hnodup).1 (hi.trans hj.symm)
  rfl

theorem pathOfLine_numberedLines (hpaths : ∀ p ∈ paths, IsField p)
    (hroot : ∀ p ∈ paths, begins ".." p = false) (mapping : String) :
    pathOfLine (numberedLines 0 paths) mapping id = .ok p ↔ ∃ i : Nat, id = i + 1 ∧ paths[i]? = some p := by
  have hlength : (numberedLines 0 paths).length = paths.length := by simp [numberedLines]
  by_cases hid : 0 < id ∧ id ≤ paths.length
  · obtain ⟨i, rfl⟩ : ∃ i : Nat, id = i + 1 := ⟨(id - 1).toNat, by omega⟩
    have hi : i < paths.length := by omega
    have hline : (numberedLines 0 paths)[((i : Int) + 1 - 1).toNat]? = some (numberedLine (i + 1) paths[i]) := by
      rw [show ((i : Int) + 1 - 1).toNat = i by omega, getElem?_numberedLines, getElem?_eq_getElem hi]
      rfl
    have hmem : paths[i] ∈ paths := getElem_mem hi
    have hpath : pathOfLine (numberedLines 0 paths) mapping (i + 1) = .ok paths[i] := by
      rw [pathOfLine, hlength, if_neg (by simpa using hid), hline, Option.getD_some,
        (hpaths _ hmem).split_numberedLine]
      simp only [hroot _ hmem]
      rfl
    rw [hpath]
    constructor
    · rintro ⟨⟩
      exact ⟨i, rfl, getElem?_eq_getElem hi⟩
    · rintro ⟨j, hj, hp⟩
      obtain rfl : i = j := by omega
      rw [getElem?_eq_getElem hi] at hp
      rw [Option.some.inj hp]
  · have herror : pathOfLine (numberedLines 0 paths) mapping id = .error .invalidFileId := by
      have hout : (!(decide (0 < id) && decide (id ≤ (paths.length : Int)))) := by
        rw [Bool.not_eq_true', Bool.and_eq_false_iff, decide_eq_false_iff_not, decide_eq_false_iff_not]
        omega
      rw [pathOfLine, hlength, if_pos hout]
    rw [herror]
    constructor
    · rintro ⟨⟩
    · rintro ⟨i, rfl, hp⟩
      have hi : i < paths.length := (List.getElem?_eq_some_iff.1 hp).1
      exact absurd ⟨by omega, by omega⟩ hid

/-! ### The listed paths -/

/-- The full path of a file below the directory whose name the file mapping lists. -/
def IsSource (files : Files) (directory path : String) : Prop :=
  ∃ p, inFolder directory p ∈ files.texts.keys ∧ lists (nameOf p) ∧
    path = workingDirectory ++ "/" ++ inFolder directory p

section Listed

variable {files : Files} {directory : String}

section

variable (hstore : files.IsPlainStore)
include hstore

variable (hdirectory : Files.IsFolderPath directory)
include hdirectory

theorem listedPaths_perm :
    (listedPaths files directory).Perm (((files.below directory).filter fun p =>
      lists (nameOf p) && files.isFile (join directory p)).map fun p =>
        workingDirectory ++ "/" ++ inFolder directory p) := by
  refine (mergeSort_perm _ _).trans (Perm.of_eq (map_congr_left fun p hp => ?_))
  have hplain := hstore.isPlain_of_mem_below hdirectory (mem_filter.1 hp).1
  rw [hplain.join hdirectory, ((isPlain_inFolder_iff hdirectory).2 hplain).absolute]

theorem mem_listedPaths_iff : path ∈ listedPaths files directory ↔ IsSource files directory path := by
  rw [(listedPaths_perm hstore hdirectory).mem_iff]
  simp only [mem_map, mem_filter, Bool.and_eq_true]
  constructor
  · rintro ⟨p, ⟨hbelow, hname, hfile⟩, rfl⟩
    have hplain := hstore.isPlain_of_mem_below hdirectory hbelow
    rw [hplain.join hdirectory, ((isPlain_inFolder_iff hdirectory).2 hplain).isFile_iff] at hfile
    exact ⟨p, hfile, hname, rfl⟩
  · rintro ⟨p, hkey, hname, rfl⟩
    have hheld := mem_append_left files.folders hkey
    have hplain := hstore.isPlain_rest hdirectory hheld
    refine ⟨p, ⟨hstore.mem_below hdirectory hheld, hname, ?_⟩, rfl⟩
    rwa [hplain.join hdirectory, ((isPlain_inFolder_iff hdirectory).2 hplain).isFile_iff]

theorem nodup_listedPaths : (listedPaths files directory).Nodup := by
  rw [(listedPaths_perm hstore hdirectory).nodup_iff]
  refine ((nodup_distinct _).filter _).map fun p q h => inFolder_injective directory ?_
  rw [← String.toList_inj, String.toList_append, String.toList_append (t := inFolder directory q)] at h
  exact String.toList_inj.1 (append_cancel_left h)

theorem pairwise_listedPaths : (listedPaths files directory).Pairwise (· < ·) := by
  have hle : ∀ a b : String, (!decide (b < a)) ↔ a ≤ b := fun a b => by
    rw [Bool.not_eq_true', decide_eq_false_iff_not, not_lt]
  have hsorted : (listedPaths files directory).Pairwise fun a b => (!decide (b < a)) := by
    refine pairwise_mergeSort (fun a b c => ?_) (fun a b => ?_) _
    · simpa only [hle] using le_trans
    · simpa only [Bool.or_eq_true, hle] using le_total a b
  exact (hsorted.and (nodup_listedPaths hstore hdirectory)).imp fun h => lt_of_le_of_ne ((hle _ _).1 h.1) h.2

end

theorem toList_full (k : String) : (workingDirectory ++ "/" ++ k).toList = '$' :: ("DIR/".toList ++ k.toList) := by
  simp [workingDirectory]

theorem plainPath_full {k : String} (hk : Files.IsPlain k) :
    plainPath (workingDirectory ++ "/" ++ k) = workingDirectory ++ "/" ++ k := by
  have hsplit : split "/" (workingDirectory ++ "/" ++ k) = workingDirectory :: split "/" k :=
    split_cons rfl (by decide) k
  have hkeep : (split "/" (workingDirectory ++ "/" ++ k)).filter (fun p => p ≠ "" && p ≠ ".") =
      split "/" (workingDirectory ++ "/" ++ k) := by
    rw [filter_eq_self, hsplit, forall_mem_cons]
    refine ⟨by decide, fun n hn => ?_⟩
    have hname := hk.isName n hn
    simp [hname.isPart.1, hname.ne_here]
  have hslash : begins "/" (workingDirectory ++ "/" ++ k) = false := by
    rw [begins, toList_full]
    rfl
  have hslashes : begins "//" (workingDirectory ++ "/" ++ k) = false := by
    rw [begins, toList_full]
    rfl
  have hne : (workingDirectory ++ "/" ++ k == "") = false := by simp
  simp only [plainPath, hkeep, Files.intercalate_split, hslash, hslashes, hne, Bool.false_and,
    Bool.false_eq_true, if_false]

theorem IsSource.plainPath_eq (hstore : files.IsPlainStore) (h : IsSource files directory path) :
    plainPath path = path := by
  obtain ⟨p, hkey, -, rfl⟩ := h
  exact plainPath_full (hstore _ (mem_append_left _ hkey))

theorem IsSource.not_begins_up (h : IsSource files directory path) : begins ".." path = false := by
  obtain ⟨p, -, -, rfl⟩ := h
  rw [begins, toList_full]
  rfl

end Listed

/-! ### The file -/

theorem run_update {files : Files} (hdirectory : Files.IsFolderPath directory)
    (hfolder : files.isFolder directory) (hfree : files.isDirectory (inFolder directory name) = false) :
    (update directory).run.run files = (.ok (), { files with
      texts := files.texts.insert (inFolder directory name) (text (listedPaths files directory)) }) := by
  have hplain : Files.IsPlain (inFolder directory name) := (isPlain_inFolder_iff hdirectory).2 (by decide)
  have hname : Files.IsPlain name := by decide
  have hdivider : '/' ∉ name.toList := by decide
  have hwrite : files.write (join directory name) (text (listedPaths files directory)) = .ok { files with
      texts := files.texts.insert (inFolder directory name) (text (listedPaths files directory)) } := by
    rw [isDirectory, hplain.resolve?, Option.any_some] at hfree
    rw [hname.join hdirectory, write, hplain.resolve?]
    simp only [hfree, Bool.false_eq_true, if_false, directoryOf_inFolder hdirectory hdivider, hfolder, if_true]
  rw [update, run_get_bind, Filing.write, run_get_bind, hwrite]
  rfl

section Stored

variable {files : Files} {mapping : String}

theorem raw?_of_resolve? {key written : String}
    (h : { files with texts := files.texts.insert key written : Files }.resolve? mapping = some key) :
    { files with texts := files.texts.insert key written : Files }.raw? mapping = some written := by
  rw [raw?, h, Option.bind_some, Table.get?_insert, if_pos (beq_self_eq_true _)]

theorem read_of_raw? (hraw : files.raw? mapping = some (text paths))
    (hpaths : ∀ p ∈ paths, IsField p) : files.read mapping = .ok (text paths) := by
  rw [Files.read, hraw]
  exact congrArg Except.ok (plainLineEnds_text hpaths)

theorem load_of_raw? (hraw : files.raw? mapping = some (text paths)) (hpaths : ∀ p ∈ paths, IsField p)
    (hplain : ∀ p ∈ paths, plainPath p = p) : load files mapping = .ok (numberedTable paths) := by
  have hpresent : files.present mapping := by
    rw [present, isFile, hraw]
    rfl
  rw [load, hpresent, read_of_raw? hraw hpaths]
  show parse (text paths) = _
  rw [parse, feedLines_text hpaths, foldlM_addLine hpaths 0 ∅
    (by simp [Table.keys, EmptyCollection.emptyCollection, Table.empty])]
  refine congrArg (fun es => Except.ok (Table.mk es)) (map_congr_left fun e he => ?_)
  rw [hplain e.1 (fst_mem_of_mem_zipIdx he)]

end Stored

/-- The numbers on the lines of a file mapping. -/
def numbersOf (text : String) : List (Option Int) :=
  (lines text).map fun l => integer? ((split "\t" l).headD "")

theorem numbersOf_text (hpaths : ∀ p ∈ paths, IsField p) :
    numbersOf (text paths) = (range paths.length).map fun i : Nat => some ((i : Int) + 1) := by
  rw [numbersOf, lines_text hpaths, numberedLines, map_map, ← map_snd_zipIdx, map_map]
  refine map_congr_left fun e he => ?_
  have hline := (hpaths e.1 (fst_mem_of_mem_zipIdx he)).split_numberedLine (e.2 + 1)
  simp only [Function.comp_apply, hline, headD_cons, integer?_number]
  rfl

/-- After the file mapping of a directory is written, its lines have the numbers from one on, each
once, and both readers find under a number the path of that place in the order of the sources; so
two numbers do not have the same path. -/
theorem update_readers_agree {files : Files} {directory : String} (hstore : files.IsPlainStore)
    (hdirectory : Files.IsFolderPath directory) (hfolder : files.isFolder directory = true)
    (hfree : files.isDirectory (inFolder directory name) = false)
    (hfields : ∀ p, IsSource files directory p → IsField p) :
    ∃ (files' : Files) (paths : List String), (update directory).run.run files = (.ok (), files') ∧
      paths.Pairwise (· < ·) ∧ (∀ p, p ∈ paths ↔ IsSource files directory p) ∧
      ∀ mapping, files'.resolve? mapping = some (inFolder directory name) →
        ∃ text table, files'.read mapping = .ok text ∧ load files' mapping = .ok table ∧
          numbersOf text = (List.range paths.length).map (fun i : Nat => some ((i : Int) + 1)) ∧
          table.keys = (List.range paths.length).map (fun i : Nat => (i : Int) + 1) ∧
          (∀ (i : Nat) p, table.get? (i + 1) = some p ↔ paths[i]? = some p) ∧
          (∀ id p, table.get? id = some p ↔ pathOfLine (lines text) mapping id = .ok p) ∧
          ∀ id id' p, table.get? id = some p → table.get? id' = some p → id = id' := by
  have hsources : ∀ p, p ∈ listedPaths files directory ↔ IsSource files directory p := fun _ =>
    mem_listedPaths_iff hstore hdirectory
  have hpaths : ∀ p ∈ listedPaths files directory, IsField p := fun p hp => hfields p ((hsources p).1 hp)
  have hplain : ∀ p ∈ listedPaths files directory, plainPath p = p := fun p hp =>
    ((hsources p).1 hp).plainPath_eq hstore
  have hroot : ∀ p ∈ listedPaths files directory, begins ".." p = false := fun p hp =>
    ((hsources p).1 hp).not_begins_up
  refine ⟨_, _, run_update hdirectory hfolder hfree, pairwise_listedPaths hstore hdirectory,
    hsources, fun mapping hmapping => ?_⟩
  have hraw := raw?_of_resolve? hmapping
  refine ⟨_, _, read_of_raw? hraw hpaths, load_of_raw? hraw hpaths hplain, numbersOf_text hpaths,
    keys_numberedTable _,
    fun i p => get?_numberedTable_succ, fun id p => ?_, fun id id' p => eq_of_get?_numberedTable ?_⟩
  · rw [get?_numberedTable, lines_text hpaths, pathOfLine_numberedLines hpaths hroot]
  · exact nodup_listedPaths hstore hdirectory

/-- A directory with three sources, one of them in a directory of its own, and a source beside
it. -/
def sourceTree : Files where
  texts := ⟨[("src/main.cpp", ""), ("src/lib/10 util.hpp", ""), ("src/lib.c", ""),
    ("src/notes.txt", ""), ("other.cc", "")]⟩
  folders := ["src/empty"]

/-- Both readers find the sources below the directory. -/
theorem update_readers_agree_sourceTree :
    sourceTree.IsPlainStore ∧ Files.IsFolderPath "src" ∧ sourceTree.isFolder "src" = true ∧
      sourceTree.isDirectory (inFolder "src" name) = false ∧
      (∀ p, IsSource sourceTree "src" p → IsField p) ∧
      ∃ (files' : Files) (paths : List String), (update "src").run.run sourceTree = (.ok (), files') ∧
        paths.Pairwise (· < ·) ∧ (∀ p, p ∈ paths ↔ IsSource sourceTree "src" p) ∧
        ∀ mapping, files'.resolve? mapping = some (inFolder "src" name) →
          ∃ text table, files'.read mapping = .ok text ∧ load files' mapping = .ok table ∧
            numbersOf text = (List.range paths.length).map (fun i : Nat => some ((i : Int) + 1)) ∧
            table.keys = (List.range paths.length).map (fun i : Nat => (i : Int) + 1) ∧
            (∀ (i : Nat) p, table.get? (i + 1) = some p ↔ paths[i]? = some p) ∧
            (∀ id p, table.get? id = some p ↔ pathOfLine (lines text) mapping id = .ok p) ∧
            ∀ id id' p, table.get? id = some p → table.get? id' = some p → id = id' := by
  have hstore : sourceTree.IsPlainStore := by
    unfold Files.IsPlainStore
    decide
  have hdirectory : Files.IsFolderPath "src" := .inr (by decide)
  have hfields : ∀ p, IsSource sourceTree "src" p → IsField p := by
    have hkeys : ∀ k ∈ sourceTree.texts.keys, IsField (workingDirectory ++ "/" ++ k) := by decide
    rintro _ ⟨p, hkey, -, rfl⟩
    exact hkeys _ hkey
  exact ⟨hstore, hdirectory, by decide, by decide, hfields,
    update_readers_agree hstore hdirectory (by decide) (by decide) hfields⟩

end ParallelPatterns.FileMapping
