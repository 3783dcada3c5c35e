import ParallelPatterns.Configuration
import ParallelPatterns.Proofs.Computation
import ParallelPatterns.Proofs.JsonText
import ParallelPatterns.Proofs.Paths

/-!
# The file of a configuration

The values of a configuration are those entered last, and the stored text tells them. The file lies
in the folder of the stored configurations; its name is made of the identifier and the label, so
that a label with a divider does not give the name of a file.
-/

namespace ParallelPatterns.Configuration

open List

variable {c : Configuration} {id label directory : String}

/-! ## Values -/

/-- A configuration that is entered. -/
def entered (id : String) (form : ConfigurationForm) : Configuration := (empty id).withForm form

theorem get?_label_withForm (c : Configuration) (f : ConfigurationForm) :
    (c.withForm f).values.get? "label" = some (.str f.label) := by
  simp [withForm]

theorem get?_id_empty (id : String) : (empty id).values.get? "id" = some (.str id) := by
  simp [empty, Table.ofList]

theorem nodup_keys_entered (id : String) (f : ConfigurationForm) : (entered id f).values.keys.Nodup := by
  have hnone : (Table.empty : Table String Json).keys.Nodup := nodup_nil
  have hempty : (empty id).values.keys.Nodup := Table.nodup_keys_foldl_insert hnone _
  exact Table.nodup_keys_foldl_insert hempty _

theorem parse?_text (hc : c.values.keys.Nodup) :
    Json.parse? c.text = some (.obj (c.values.map fun _ v => v.reread).entries) := by
  have htext : Json.IsTextOf c.text (.obj c.values.entries) := .inl rfl
  rw [Json.parse?_of_isTextOf htext, Json.reread_obj hc]
  rfl

theorem get?_eq_of_text_eq {c' : Configuration} (hc : c.values.keys.Nodup)
    (hc' : c'.values.keys.Nodup) (h : c.text = c'.text) (key : String) :
    (c.values.get? key).map Json.reread = (c'.values.get? key).map Json.reread := by
  have hparsed := congrArg Json.parse? h
  rw [parse?_text hc, parse?_text hc', Option.some.injEq, Json.obj.injEq] at hparsed
  have hvalues : (c.values.map fun _ v => v.reread) = c'.values.map fun _ v => v.reread := congrArg Table.mk hparsed
  have hget := congrArg (fun t : Table String Json => t.get? key) hvalues
  simpa only [Table.get?_map] using hget

theorem label_eq_of_text_eq {f g : ConfigurationForm}
    (h : (entered id f).text = (entered id g).text) : f.label = g.label := by
  have hlabels := get?_eq_of_text_eq (nodup_keys_entered id f) (nodup_keys_entered id g) h "label"
  rw [entered, entered, get?_label_withForm, get?_label_withForm] at hlabels
  simpa using hlabels

/-! ## Names -/

/-- An identifier has letters and digits only. -/
def IsIdentifier (id : String) : Prop := ∀ c ∈ id.toList, c.isAlphanum

instance (id : String) : Decidable (IsIdentifier id) := List.decidableBAll _ id.toList

/-- The name of the file of a configuration. -/
def fileName (id label : String) : String := id ++ "_" ++ label ++ ".json"

theorem IsIdentifier.notMem (h : IsIdentifier id) {c : Char} (hc : c.isAlphanum = false) : c ∉ id.toList := by
  intro hmem
  rw [h c hmem] at hc
  cases hc

theorem toList_fileName (id label : String) :
    (fileName id label).toList = id.toList ++ '_' :: (label.toList ++ ".json".toList) := by
  simp [fileName]

theorem eq_of_begins_fileName {id' : String} (hid : IsIdentifier id) (hid' : IsIdentifier id')
    (h : Text.begins (id ++ "_") (fileName id' label)) : id = id' := by
  have hstart : id.toList ++ ['_'] <+: id'.toList ++ '_' :: (label.toList ++ ".json".toList) := by
    simpa [toList_fileName] using Text.begins_iff.1 h
  rcases Text.prefix_separator hstart with heq | ⟨r, hr⟩ | ⟨r, hr⟩
  · exact String.toList_inj.1 heq
  · exact absurd (by simp [← hr]) (hid'.notMem (c := '_') (by decide))
  · exact absurd (by simp [hr]) (hid.notMem (c := '_') (by decide))

variable {s path : String} {f : Files}

theorem isName_of_mem (hmark : '_' ∈ s.toList) (hs : '/' ∉ s.toList) : Files.IsName s where
  isPart := ⟨fun heq => absurd (heq ▸ hmark) (by decide), hs⟩
  ne_here heq := absurd (heq ▸ hmark) (by decide)
  ne_up heq := absurd (heq ▸ hmark) (by decide)

theorem isName_fileName (hid : IsIdentifier id) (hlabel : '/' ∉ label.toList) :
    Files.IsName (fileName id label) := by
  refine isName_of_mem (by simp [toList_fileName]) ?_
  simpa [toList_fileName, hlabel] using hid.notMem (by decide)

theorem isDeep_fileName (hid : IsIdentifier id) (hlabel : '/' ∈ label.toList) :
    Files.IsDeep (fileName id label) := by
  obtain ⟨before, behind, heq, hbefore⟩ := eq_append_cons_of_mem hlabel
  have hname : fileName id label =
      (id ++ "_" ++ String.ofList before) ++ "/" ++ (String.ofList behind ++ ".json") := by
    rw [← String.toList_inj, toList_fileName, heq]
    simp
  refine ⟨_, _, hname, isName_of_mem (by simp) ?_, Files.partsOf_ne_nil (c := 'n') (by simp) (by decide)⟩
  simpa [hbefore] using hid.notMem (by decide)

/-! ## Paths -/

/-- The path of the folder of the stored configurations. -/
def folderPath (directory : String) : String := Files.join directory folder

structure IsNamed (c : Configuration) (id label : String) : Prop where
  id : c.values.get? "id" = some (.str id)
  label : c.values.get? "label" = some (.str label)

theorem isNamed_empty (id : String) : (empty id).IsNamed id "" := ⟨get?_id_empty id, by simp [empty, Table.ofList]⟩

theorem isNamed_entered (id : String) (f : ConfigurationForm) : (entered id f).IsNamed id f.label :=
  ⟨by simp [entered, withForm, get?_id_empty], get?_label_withForm _ f⟩

theorem folderPath_eq (directory : String) : ∃ s, folderPath directory = s ++ folder := by
  rw [folderPath, Files.join, if_neg (by decide)]
  split
  · exact ⟨directory, rfl⟩
  · exact ⟨directory ++ "/", rfl⟩

theorem begins_fileName {c : Char} (hc : c.isAlphanum = false) (hmark : c ≠ '_')
    (hs : s.toList.head? = some c) (hid : IsIdentifier id) (label : String) :
    Text.begins s (fileName id label) = false := by
  rw [Bool.eq_false_iff]
  intro h
  obtain ⟨r, hr⟩ := Text.begins_iff.1 h
  have hhead := congrArg head? hr
  rw [head?_append, hs, toList_fileName, head?_append] at hhead
  cases hchars : id.toList with
  | nil =>
    rw [hchars] at hhead
    exact hmark (by simpa using hhead)
  | cons c' cs =>
    rw [hchars] at hhead
    obtain rfl : c = c' := by simpa using hhead
    exact hid.notMem hc (by simp [hchars])

theorem path_eq (hc : c.IsNamed id label) (hid : IsIdentifier id) :
    c.path directory = .ok (folderPath directory ++ "/" ++ fileName id label) := by
  have hpath : c.path directory = .ok (Files.join (folderPath directory) (fileName id label)) := by
    rw [path, hc.id, hc.label]
    rfl
  have hroot : Text.begins "/" (fileName id label) = false :=
    begins_fileName (c := '/') (by decide) (by decide) (by decide) hid label
  have hwork : Text.begins workingDirectory (fileName id label) = false :=
    begins_fileName (c := '$') (by decide) (by decide) (by decide) hid label
  obtain ⟨s, hs⟩ := folderPath_eq directory
  have hdir : (folderPath directory == "" || Text.ends "/" (folderPath directory)) = false := by
    have hlast : (s ++ folder).toList.getLast? = some 's' := by
      rw [String.toList_append, getLast?_append]
      rfl
    rw [hs, Bool.eq_false_iff]
    intro hend
    rw [Bool.or_eq_true, beq_iff_eq, Text.ends, isSuffixOf_iff_suffix] at hend
    rcases hend with hempty | ⟨t, ht⟩
    · rw [hempty] at hlast
      cases hlast
    · rw [← ht, getLast?_append] at hlast
      cases hlast
  rw [hpath, Files.join, hroot, hwork, hdir]
  rfl

/-! ## Saving and deleting one configuration -/

theorem run_delete (hpath : c.path directory = .ok path) (hdir : f.isDirectory path = false) :
    (c.delete directory).run.run f = (.ok (), f.remove path) := by
  rw [delete, run_bind_of_ok (run_lift_of_ok hpath f), run_get_bind, hdir]
  rfl

theorem run_write (f : Files) (path text : String) : (Filing.write path text).run.run f =
    match f.write path text with
    | .ok f' => (.ok (), f')
    | .error e => (.error e, f) := by
  rw [Filing.write, run_get_bind]
  cases f.write path text <;> rfl

theorem run_save {form : ConfigurationForm} (hpath : (c.withForm form).path directory = .ok path)
    (hdir : f.isDirectory path = false) :
    (c.save directory form).run.run f =
      match (f.remove path).write path (c.withForm form).text with
      | .ok f' => (.ok (c.withForm form), f')
      | .error e => (.error e, f.remove path) := by
  have hwrite := run_write (f.remove path) path (c.withForm form).text
  rw [save, run_bind_of_ok (run_delete hpath hdir), run_bind_of_ok (run_lift_of_ok hpath _)]
  cases hresult : (f.remove path).write path (c.withForm form).text with
  | ok f' =>
    rw [hresult] at hwrite
    rw [run_bind_of_ok hwrite]
    rfl
  | error e =>
    rw [hresult] at hwrite
    rw [run_bind_of_error hwrite]

end ParallelPatterns.Configuration
