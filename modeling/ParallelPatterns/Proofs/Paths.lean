import ParallelPatterns.Files
import ParallelPatterns.Proofs.Cutting
import ParallelPatterns.Proofs.Table

/-!
# Paths below a directory

What a path denotes that starts with the path of a directory. A shelf (`IsShelf`) is a directory
that holds files and no further directories: a file in it can be written and removed, and what lies
behind a file name is out of reach. Neither changes which paths are directories, so a shelf stays
one.
-/

namespace ParallelPatterns.Files

open List Text

variable {s p name : String}

/-! ## Parts -/

/-- A part of a path: a name without a divider. -/
def IsPart (s : String) : Prop := s ≠ "" ∧ '/' ∉ s.toList

/-- The parts of a path, empty ones left out. -/
def partsOf (s : String) : List String := (split "/" s).filter (· ≠ "")

theorem isPart_of_mem_partsOf (h : p ∈ partsOf s) : IsPart p := by
  rw [partsOf, mem_filter] at h
  exact ⟨by simpa using h.2, notMem_of_mem_split rfl h.1⟩

theorem partsOf_append (s t : String) : partsOf (s ++ "/" ++ t) = partsOf s ++ partsOf t := by
  rw [partsOf, split_append rfl, filter_append]
  rfl

theorem partsOf_of_isPart (h : IsPart s) : partsOf s = [s] := by
  rw [partsOf, split_eq_singleton rfl h.2]
  simp [h.1]

theorem partsOf_ne_nil {c : Char} (hc : c ∈ s.toList) (hne : c ≠ '/') : partsOf s ≠ [] := by
  obtain ⟨part, hpart, hmem⟩ : ∃ part ∈ splitGo ['/'] 0 [] s.toList, c ∈ part :=
    (exists_mem_splitGo_iff (by simpa using hne) 0 [] s.toList).2 (.inr hc)
  have hin : String.ofList part ∈ partsOf s := by
    rw [partsOf, mem_filter]
    refine ⟨mem_map.2 ⟨part, hpart, rfl⟩, ?_⟩
    have : part ≠ [] := ne_nil_of_mem hmem
    simpa using this
  exact ne_nil_of_mem hin

theorem parts?_eq (path : String) : parts? path =
    if path = workingDirectory then some []
    else if begins (workingDirectory ++ "/") path then
      some (partsOf (drop (workingDirectory ++ "/").length path))
    else if begins "/" path then none else some (partsOf path) := by
  simp only [parts?, beq_iff_eq]
  rfl

variable (f : Files) {d : String}

theorem parts?_append (hd : d ≠ "") (s : String) : parts? (d ++ "/" ++ s) = (parts? d).map (· ++ partsOf s) := by
  have hslash : d ++ "/" ++ s ≠ workingDirectory := by
    intro heq
    have hmem : '/' ∈ (d ++ "/" ++ s).toList := by simp
    rw [heq] at hmem
    exact absurd hmem (by decide)
  have hroot : begins "/" (d ++ "/" ++ s) = begins "/" d := by
    obtain ⟨c, cs, hcs⟩ := exists_cons_of_ne_nil fun hnil => hd (String.toList_eq_nil_iff.1 hnil)
    simp [begins, hcs, isPrefixOf]
  rw [parts?_eq, parts?_eq, if_neg hslash, hroot]
  by_cases hwork : d = workingDirectory
  · subst hwork
    rw [if_pos (begins_append _ s), drop_append (Nat.le_refl _)]
    rfl
  rw [if_neg hwork]
  by_cases hbegin : begins (workingDirectory ++ "/") d
  · have hlong : (workingDirectory ++ "/").length ≤ d.length := (begins_iff.1 hbegin).length_le
    have hbegin' : begins (workingDirectory ++ "/") (d ++ "/" ++ s) := by
      rw [begins_iff] at hbegin ⊢
      simpa using hbegin.trans (prefix_append _ _)
    rw [if_pos hbegin, if_pos hbegin', String.append_assoc, drop_append hlong,
      ← String.append_assoc, partsOf_append]
    rfl
  · have hbegin' : ¬ begins (workingDirectory ++ "/") (d ++ "/" ++ s) := by
      intro h
      rw [begins_iff] at h
      have h' : workingDirectory.toList ++ ['/'] <+: d.toList ++ '/' :: s.toList := by simpa using h
      rcases prefix_separator h' with heq | hle | ⟨r, hr⟩
      · exact hwork (String.toList_inj.1 heq).symm
      · exact hbegin (begins_iff.2 hle)
      · have hmem : '/' ∈ workingDirectory.toList := by simp [hr]
        exact absurd hmem (by decide)
    rw [if_neg hbegin', partsOf_append]
    split <;> rfl

/-! ## Resolving -/

variable (acc ps : List String)

theorem resolveGo_here : f.resolveGo acc ("." :: ps) =
    if f.isFolder ("/".intercalate acc.reverse) then f.resolveGo acc ps else none := by
  rfl

theorem resolveGo_up (a : String) (acc ps : List String) : f.resolveGo (a :: acc) (".." :: ps) =
    if f.isFolder ("/".intercalate (a :: acc).reverse) then f.resolveGo acc ps else none := by
  rfl

theorem resolveGo_cons (hhere : p ≠ ".") (hup : p ≠ "..")
    (ps : List String) : f.resolveGo acc (p :: ps) = f.resolveGo (p :: acc) ps := by
  rw [resolveGo.eq_def]
  simp [hhere, hup]

theorem resolveGo_append (qs : List String) :
    f.resolveGo acc (ps ++ qs) = (f.resolveGo acc ps).bind fun rs => f.resolveGo rs.reverse qs := by
  induction ps generalizing acc with
  | nil => simp [resolveGo]
  | cons p ps ih =>
    rw [cons_append, resolveGo.eq_def, resolveGo.eq_def f acc (p :: ps)]
    cases acc <;> (simp only [ih]; split_ifs <;> rfl)

theorem isPart_of_mem_resolveGo {f : Files} {acc ps rs : List String} (h : f.resolveGo acc ps = some rs)
    (hacc : ∀ a ∈ acc, IsPart a) (hps : ∀ p ∈ ps, IsPart p) : ∀ r ∈ rs, IsPart r := by
  induction ps generalizing acc with
  | nil =>
    obtain rfl : acc.reverse = rs := by simpa [resolveGo] using h
    simpa using hacc
  | cons p ps ih =>
    have hrest : ∀ q ∈ ps, IsPart q := fun q hq => hps q (mem_cons_of_mem p hq)
    by_cases hhere : p = "."
    · subst hhere
      rw [resolveGo_here] at h
      split at h
      · exact ih h hacc hrest
      · cases h
    by_cases hup : p = ".."
    · subst hup
      cases acc with
      | nil => cases h
      | cons a acc =>
        rw [resolveGo_up] at h
        split at h
        · exact ih h (fun b hb => hacc b (mem_cons_of_mem a hb)) hrest
        · cases h
    rw [resolveGo_cons f acc hhere hup] at h
    exact ih h (by simpa using ⟨hps p (by simp), hacc⟩) hrest

theorem exists_of_resolve? {f : Files} {folder : String} (h : f.resolve? d = some folder) (hne : folder ≠ "") :
    ∃ written ps, d ≠ "" ∧ parts? d = some written ∧ f.resolveGo [] written = some ps ∧ ps ≠ [] ∧
      (∀ p ∈ ps, IsPart p) ∧ folder = "/".intercalate ps := by
  have hd : d ≠ "" := by
    rintro rfl
    cases h
  rw [resolve?, if_neg (by simpa using hd)] at h
  cases hparts : parts? d with
  | none => rw [hparts] at h; cases h
  | some written =>
    simp only [hparts, Option.map_eq_some_iff] at h
    obtain ⟨ps, hps, hfolder⟩ := h
    refine ⟨written, ps, hd, rfl, hps, ?_, ?_, hfolder.symm⟩
    · rintro rfl
      exact hne hfolder.symm
    · refine isPart_of_mem_resolveGo hps (by simp) ?_
      rw [parts?_eq] at hparts
      intro p hp
      split_ifs at hparts
      all_goals
        obtain rfl := Option.some.inj hparts
        first | exact isPart_of_mem_partsOf hp | cases hp

theorem resolve?_append {f : Files} {written ps : List String} (hd : d ≠ "")
    (hwritten : parts? d = some written) (hps : f.resolveGo [] written = some ps) (s : String) :
    f.resolve? (d ++ "/" ++ s) = (f.resolveGo ps.reverse (partsOf s)).map ("/".intercalate ·) := by
  rw [resolve?, if_neg (by simp), parts?_append hd, hwritten]
  simp only [Option.map_some, resolveGo_append, hps, Option.bind_some]

theorem resolve?_congr {f f' : Files} (h : ∀ q, f'.isFolder q = f.isFolder q) (path : String) :
    f'.resolve? path = f.resolve? path := by
  have hgo : ∀ acc ps, f'.resolveGo acc ps = f.resolveGo acc ps := by
    intro acc ps
    induction ps generalizing acc with
    | nil => rfl
    | cons p ps ih =>
      rw [resolveGo.eq_def, resolveGo.eq_def f acc (p :: ps)]
      cases acc <;> simp only [ih, h]
  simp only [resolve?, hgo]

/-! ## The directory of a path -/

theorem directoryOf_append {t : String} (hp : IsPart p) (ht : '/' ∉ t.toList) :
    directoryOf (s ++ p ++ "/" ++ t) = s ++ p := by
  have hfound : findLast? "/" (s ++ p ++ "/" ++ t) = some (s ++ p).length := by
    have hlast := findLastGo_append ht 0 (s ++ p).toList
    rw [String.length_toList] at hlast
    simpa [findLast?] using hlast
  have hhead : Text.take ((s ++ p).length + 1) (s ++ p ++ "/" ++ t) = s ++ p ++ "/" := by
    have htake : (s ++ p ++ "/" ++ t).toList.take ((s ++ p ++ "/").toList.length) = (s ++ p ++ "/").toList := by
      rw [String.toList_append (s := s ++ p ++ "/"), take_left]
    rw [Text.take, ← String.toList_inj, String.toList_ofList, ← htake, String.length_toList,
      String.length_append (s ++ p)]
    rfl
  obtain ⟨cs, c, hcs⟩ : ∃ cs c, p.toList = cs ++ [c] :=
    (eq_nil_or_concat' p.toList).resolve_left fun hnil => hp.1 (String.toList_eq_nil_iff.1 hnil)
  have hc : c ≠ '/' := by
    rintro rfl
    exact hp.2 (by simp [hcs])
  have hrest : ¬ ((s ++ p ++ "/").toList.all (· = '/')) := by
    simp [hcs, hc]
  rw [directoryOf, hfound]
  simp only [hhead]
  rw [if_neg hrest, trimEndBy, ← String.toList_inj]
  simp [hcs, hc]

theorem exists_append_part {ps : List String} (hne : ps ≠ []) (hps : ∀ p ∈ ps, IsPart p) :
    ∃ s p, "/".intercalate ps = s ++ p ∧ IsPart p := by
  obtain ⟨init, last, rfl⟩ := (eq_nil_or_concat' ps).resolve_left hne
  have hlast : IsPart last := hps last (by simp)
  by_cases hinit : init = []
  · exact ⟨"", last, by simp [hinit], hlast⟩
  · refine ⟨"/".intercalate init ++ "/", last, ?_, hlast⟩
    rw [String.intercalate_append_of_ne_nil hinit (cons_ne_nil _ _), String.intercalate_singleton]

/-! ## Directories of files -/

/-- A directory that is there whether or not it holds a file, and that holds no directories. -/
structure IsShelf (f : Files) (d folder : String) : Prop where
  resolves : f.resolve? d = some folder
  named : folder ≠ ""
  listed : folder ∈ f.folders
  flat : ∀ name, folder ++ "/" ++ name ∈ f.texts.keys → '/' ∉ name.toList
  noFolder : ∀ name, folder ++ "/" ++ name ∉ f.folders

/-- The name of a file: a part that does not stand for a directory. -/
structure IsName (s : String) : Prop where
  isPart : IsPart s
  ne_here : s ≠ "."
  ne_up : s ≠ ".."

def IsDeep (s : String) : Prop := ∃ first rest, s = first ++ "/" ++ rest ∧ IsName first ∧ partsOf rest ≠ []

namespace IsShelf

variable {f : Files} {d folder : String}

variable (h : f.IsShelf d folder)
include h

theorem isFolder : f.isFolder folder := by
  simp [Files.isFolder, h.listed]

theorem isFolder_below (x : String) : f.isFolder (folder ++ "/" ++ x) = false := by
  rw [Bool.eq_false_iff]
  intro hfolder
  simp only [Files.isFolder, Bool.or_eq_true, contains_iff_mem, any_eq_true] at hfolder
  rcases hfolder with (hempty | hlisted) | ⟨k, hk, hbegin⟩
  · simp at hempty
  · exact h.noFolder x hlisted
  · obtain ⟨r, hr⟩ := begins_iff.1 hbegin
    obtain rfl : folder ++ "/" ++ (x ++ "/" ++ String.ofList r) = k := by
      rw [← String.toList_inj, ← hr]
      simp
    rcases mem_append.1 hk with hk | hk
    · exact h.flat _ hk (by simp)
    · exact h.noFolder _ hk

theorem resolve?_name (hname : IsName name) : f.resolve? (d ++ "/" ++ name) = some (folder ++ "/" ++ name) := by
  obtain ⟨written, ps, hd, hwritten, hps, hne, -, rfl⟩ := exists_of_resolve? h.resolves h.named
  rw [resolve?_append hd hwritten hps, partsOf_of_isPart hname.isPart, resolveGo_cons _ _ hname.ne_here hname.ne_up,
    resolveGo, reverse_cons, reverse_reverse, Option.map_some,
    String.intercalate_append_of_ne_nil hne (cons_ne_nil _ _), String.intercalate_singleton]

theorem directoryOf_name (hname : IsName name) : directoryOf (folder ++ "/" ++ name) = folder := by
  obtain ⟨_, ps, -, -, -, hne, hparts, rfl⟩ := exists_of_resolve? h.resolves h.named
  obtain ⟨s, p, heq, hp⟩ := exists_append_part hne hparts
  rw [heq, directoryOf_append hp hname.isPart.2]

theorem resolveGo_below {ps mid qs rs : List String} (hps : ps ≠ [])
    (hfolder : folder = "/".intercalate ps) (hmid : mid ≠ [])
    (hgo : f.resolveGo (ps ++ mid).reverse qs = some rs) : rs = ps ++ mid ++ qs := by
  induction qs generalizing mid with
  | nil => simpa [resolveGo] using hgo.symm
  | cons q qs ih =>
    have hbelow : f.isFolder ("/".intercalate (ps ++ mid)) = false := by
      rw [String.intercalate_append_of_ne_nil hps hmid, ← hfolder]
      exact h.isFolder_below _
    by_cases hhere : q = "."
    · subst hhere
      rw [resolveGo_here, reverse_reverse, hbelow] at hgo
      cases hgo
    by_cases hup : q = ".."
    · subst hup
      obtain ⟨a, acc, hacc⟩ : ∃ a acc, (ps ++ mid).reverse = a :: acc :=
        exists_cons_of_ne_nil (by simp [hps])
      rw [hacc, resolveGo_up, ← hacc, reverse_reverse, hbelow] at hgo
      cases hgo
    rw [resolveGo_cons _ _ hhere hup] at hgo
    have hgo' : f.resolveGo (ps ++ (mid ++ [q])).reverse qs = some rs := by simpa using hgo
    simpa using ih (by simp) hgo'

theorem resolve?_deep (hs : IsDeep s) :
    f.resolve? (d ++ "/" ++ s) = none ∨
      ∃ x last, f.resolve? (d ++ "/" ++ s) = some (folder ++ "/" ++ (x ++ "/" ++ last)) ∧
        directoryOf (folder ++ "/" ++ (x ++ "/" ++ last)) = folder ++ "/" ++ x := by
  obtain ⟨first, rest, rfl, hfirst, hrest⟩ := hs
  obtain ⟨written, ps, hd, hwritten, hps, hne, -, hfolder⟩ := exists_of_resolve? h.resolves h.named
  cases hresolve : f.resolve? (d ++ "/" ++ (first ++ "/" ++ rest)) with
  | none => exact .inl rfl
  | some p =>
    right
    rw [resolve?_append hd hwritten hps, partsOf_append, partsOf_of_isPart hfirst.isPart, singleton_append,
      resolveGo_cons _ _ hfirst.ne_here hfirst.ne_up, Option.map_eq_some_iff] at hresolve
    obtain ⟨rs, hrs, rfl⟩ := hresolve
    have hmid : f.resolveGo (ps ++ [first]).reverse (partsOf rest) = some rs := by simpa using hrs
    obtain rfl := h.resolveGo_below hne hfolder (cons_ne_nil _ _) hmid
    obtain ⟨init, last, hlast⟩ := (eq_nil_or_concat' (partsOf rest)).resolve_left hrest
    have hparts : ∀ p ∈ first :: init, IsPart p := by
      intro p hp
      rcases mem_cons.1 hp with rfl | hp
      · exact hfirst.isPart
      · exact isPart_of_mem_partsOf (s := rest) (by simp [hlast, hp])
    have hlastPart : IsPart last := isPart_of_mem_partsOf (s := rest) (by simp [hlast])
    obtain ⟨s, p, heq, hp⟩ := exists_append_part (cons_ne_nil first init) hparts
    refine ⟨"/".intercalate (first :: init), last, ?_, ?_⟩
    · have hsplit : ps ++ [first] ++ partsOf rest = ps ++ ((first :: init) ++ [last]) := by simp [hlast]
      rw [hsplit, String.intercalate_append_of_ne_nil hne (by simp), ← hfolder,
        String.intercalate_append_of_ne_nil (cons_ne_nil _ _) (cons_ne_nil _ _), String.intercalate_singleton]
    · rw [heq]
      have hdir := directoryOf_append (s := folder ++ "/" ++ s) hp hlastPart.2
      simpa [String.append_assoc] using hdir

/-! ### What can be done -/

theorem isDirectory_name (hname : IsName name) : f.isDirectory (d ++ "/" ++ name) = false := by
  rw [isDirectory, h.resolve?_name hname]
  simp [h.isFolder_below name]

theorem isDirectory_deep (hs : IsDeep s) : f.isDirectory (d ++ "/" ++ s) = false := by
  rw [isDirectory]
  rcases h.resolve?_deep hs with hnone | ⟨x, last, hsome, -⟩
  · rw [hnone]
    rfl
  · rw [hsome]
    simp [h.isFolder_below]

theorem write_name (hname : IsName name) (text : String) :
    f.write (d ++ "/" ++ name) text = .ok { f with texts := f.texts.insert (folder ++ "/" ++ name) text } := by
  rw [write, h.resolve?_name hname]
  simp [h.isFolder_below name, h.directoryOf_name hname, h.isFolder]

theorem write_deep (hs : IsDeep s) (text : String) : f.write (d ++ "/" ++ s) text = .error .noSuchFile := by
  rw [write]
  rcases h.resolve?_deep hs with hnone | ⟨x, last, hsome, hdir⟩
  · rw [hnone]
  · rw [hsome]
    simp [h.isFolder_below, hdir]

theorem remove_name (hname : IsName name) :
    f.remove (d ++ "/" ++ name) = { f with texts := f.texts.erase (folder ++ "/" ++ name) } := by
  rw [remove, h.resolve?_name hname]

theorem remove_deep (hs : IsDeep s) : f.remove (d ++ "/" ++ s) = f := by
  rw [remove]
  rcases h.resolve?_deep hs with hnone | ⟨x, last, hsome, -⟩
  · rw [hnone]
  · have habsent : folder ++ "/" ++ (x ++ "/" ++ last) ∉ f.texts.keys := fun hmem => h.flat _ hmem (by simp)
    rw [hsome]
    simp only [Table.erase_of_notMem habsent]

/-! ### What stays -/

end IsShelf

theorem isFolder_of_isFolder {texts texts' : Table String String} {folders : List String}
    {folder : String} (hlisted : folder ∈ folders)
    (hkeys : ∀ k ∈ texts'.keys, k ∈ texts.keys ∨ ∃ name, '/' ∉ name.toList ∧ k = folder ++ "/" ++ name) {q : String}
    (h : isFolder ⟨texts', folders⟩ q) : isFolder ⟨texts, folders⟩ q := by
  simp only [isFolder, Bool.or_eq_true, contains_iff_mem, any_eq_true] at h ⊢
  rcases h with h | ⟨k, hk, hbegin⟩
  · exact .inl h
  rcases mem_append.1 hk with hk | hk
  · rcases hkeys k hk with hk | ⟨name, hname, rfl⟩
    · exact .inr ⟨k, mem_append_left _ hk, hbegin⟩
    · have hstart : q.toList ++ ['/'] <+: folder.toList ++ '/' :: name.toList := by simpa using begins_iff.1 hbegin
      rcases prefix_separator hstart with heq | hle | ⟨r, hr⟩
      · exact .inl (.inr (String.toList_inj.1 heq ▸ hlisted))
      · exact .inr ⟨folder, mem_append_right _ hlisted, begins_iff.2 (by simpa using hle)⟩
      · -- The name would hold the divider behind `q`.
        rw [hr, append_assoc, prefix_append_right_inj, cons_append, cons_prefix_cons] at hstart
        exact absurd (hstart.2.subset (by simp)) hname
  · exact .inr ⟨k, mem_append_right _ hk, hbegin⟩

namespace IsShelf

variable {f : Files} {d folder : String}

theorem of_texts (h : f.IsShelf d folder) {texts : Table String String}
    (hnew : ∀ k ∈ texts.keys, k ∈ f.texts.keys ∨ ∃ name, '/' ∉ name.toList ∧ k = folder ++ "/" ++ name)
    (hold : ∀ k ∈ f.texts.keys, k ∈ texts.keys ∨ ∃ name, '/' ∉ name.toList ∧ k = folder ++ "/" ++ name) :
    IsShelf { f with texts } d folder where
  resolves := by
    have hsame : ∀ q, Files.isFolder { f with texts } q = f.isFolder q := by
      intro q
      rw [Bool.eq_iff_iff]
      exact ⟨isFolder_of_isFolder h.listed hnew, isFolder_of_isFolder h.listed hold⟩
    exact (resolve?_congr hsame d).trans h.resolves
  named := h.named
  listed := h.listed
  flat := by
    intro name hmem
    rcases hnew _ hmem with hmem | ⟨name', hname', heq⟩
    · exact h.flat name hmem
    · rwa [(String.append_right_inj _).1 heq]
  noFolder := h.noFolder

theorem insert (h : f.IsShelf d folder) (hname : IsName name) (text : String) :
    IsShelf { f with texts := f.texts.insert (folder ++ "/" ++ name) text } d folder := by
  refine h.of_texts ?_ ?_
  · intro k hk
    rw [Table.keys_insert, mem_addNew] at hk
    exact hk.imp_right fun heq => ⟨name, hname.isPart.2, heq⟩
  · intro k hk
    rw [Table.keys_insert, mem_addNew]
    exact .inl (.inl hk)

theorem erase (h : f.IsShelf d folder) (hname : IsName name) :
    IsShelf { f with texts := f.texts.erase (folder ++ "/" ++ name) } d folder := by
  refine h.of_texts ?_ ?_
  · intro k hk
    exact .inl (Table.mem_keys_erase_iff.1 hk).1
  · intro k hk
    by_cases heq : k = folder ++ "/" ++ name
    · exact .inr ⟨name, hname.isPart.2, heq⟩
    · exact .inl (Table.mem_keys_erase_iff.2 ⟨hk, heq⟩)

end IsShelf

end ParallelPatterns.Files
