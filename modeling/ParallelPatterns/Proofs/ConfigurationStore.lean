import Mathlib.Data.List.Chain
import ParallelPatterns.ConfigurationStore
import ParallelPatterns.Proofs.ConfigurationFile

/-!
# What is stored of configurations

The name of the file of a configuration is made of its identifier and its label. A save under
another label does not know of the file of the earlier one, and a label with a divider denotes a
place in a folder that does not exist. `serveAll_agrees_iff` says which requests leave one file at
most for each configuration, with the values saved last and gone after a deletion: those in which
each save that follows a save with a plain label keeps it.
-/

namespace ParallelPatterns.ConfigurationStore

variable {id' : String} {last : Option ConfigurationRequest}

open ParallelPatterns.Configuration List Table

/-! ## One request -/

/-- The folder of the stored configurations holds their files only, and each configuration in use is
new or as it was entered. -/
structure IsTidy (directory folder : String) (s : ConfigurationStore) : Prop where
  shelf : s.files.IsShelf (folderPath directory) folder
  names : ∀ name, folder ++ "/" ++ name ∈ s.files.texts.keys → ∃ id label, IsIdentifier id ∧
    name = fileName id label
  held : ∀ id, s.configuration id = .empty id ∨ ∃ form, s.configuration id = entered id form

/-- The path of a file in the folder of the stored configurations. -/
def filePath (folder id label : String) : String := folder ++ "/" ++ fileName id label

theorem filePath_inj {folder id label label' : String} (hid : IsIdentifier id) (hid' : IsIdentifier id') :
    filePath folder id label = filePath folder id' label' ↔ id = id' ∧ label = label' := by
  rw [filePath, filePath, String.append_right_inj]
  constructor
  · intro heq
    have hbegin : Text.begins (id ++ "_") (fileName id' label') := by
      rw [← heq, fileName, String.append_assoc]
      exact Text.begins_append _ _
    obtain rfl := eq_of_begins_fileName hid hid' hbegin
    rw [fileName, fileName, String.append_left_inj, String.append_right_inj] at heq
    exact ⟨rfl, heq⟩
  · rintro ⟨rfl, rfl⟩
    rfl

namespace IsTidy

variable {directory folder id label : String} {s : ConfigurationStore} {form : ConfigurationForm}

variable (h : s.IsTidy directory folder)
include h

theorem withForm_configuration (id : String) (form : ConfigurationForm) :
    (s.configuration id).withForm form = entered id form := by
  rcases h.held id with hempty | ⟨f, hf⟩
  · rw [hempty, entered]
  · rw [hf]
    exact congrArg Configuration.mk (foldl_insert_foldl_insert (by rfl) (by simp) _)

theorem exists_isNamed (id : String) : ∃ label, (s.configuration id).IsNamed id label := by
  rcases h.held id with hempty | ⟨f, hf⟩
  · exact ⟨"", hempty ▸ isNamed_empty id⟩
  · exact ⟨f.label, hf ▸ isNamed_entered id f⟩

section

variable (hid : IsIdentifier id)
include hid

theorem serve_save (hlabel : '/' ∉ form.label.toList) :
    s.serve directory id (.save form) = (.ok (),
      { files := { s.files with texts := ((s.files.texts.erase (filePath folder id form.label)).insert
          (filePath folder id form.label) (entered id form).text) }
        held := s.held.insert id (entered id form) }) := by
  have hname := isName_fileName hid hlabel
  have hpath : ((s.configuration id).withForm form).path directory = _ :=
    path_eq (h.withForm_configuration id form ▸ isNamed_entered id form) hid
  have hwrite := (h.shelf.erase hname).write_name hname ((s.configuration id).withForm form).text
  rw [← h.shelf.remove_name hname] at hwrite
  rw [serve, run_save hpath (h.shelf.isDirectory_name hname), hwrite, h.withForm_configuration,
    h.shelf.remove_name hname]
  rfl

theorem serve_save_deep (hlabel : '/' ∈ form.label.toList) :
    s.serve directory id (.save form) =
      (.error .noSuchFile, { s with held := s.held.insert id (entered id form) }) := by
  have hdeep := isDeep_fileName hid hlabel
  have hpath : ((s.configuration id).withForm form).path directory = _ :=
    path_eq (h.withForm_configuration id form ▸ isNamed_entered id form) hid
  rw [serve, run_save hpath (h.shelf.isDirectory_deep hdeep), h.shelf.remove_deep hdeep,
    h.shelf.write_deep hdeep, h.withForm_configuration]
  rfl

variable (hnamed : (s.configuration id).IsNamed id label)
include hnamed

theorem serve_delete
    (hlabel : '/' ∉ label.toList) :
    s.serve directory id .delete = (.ok (),
      { s with files := { s.files with texts := s.files.texts.erase (filePath folder id label) } }) := by
  have hname := isName_fileName hid hlabel
  rw [serve, run_delete (path_eq hnamed hid) (h.shelf.isDirectory_name hname), h.shelf.remove_name hname]
  rfl

theorem serve_delete_deep
    (hlabel : '/' ∈ label.toList) :
    s.serve directory id .delete = (.ok (), s) := by
  have hdeep := isDeep_fileName hid hlabel
  rw [serve, run_delete (path_eq hnamed hid) (h.shelf.isDirectory_deep hdeep), h.shelf.remove_deep hdeep]

end

/-! ### Configurations in use -/

theorem configuration_serve_save (id : String) (form : ConfigurationForm)
    (id' : String) : (s.serve directory id (.save form)).2.configuration id' =
      if id = id' then entered id form else s.configuration id' := by
  rw [configuration, serve, h.withForm_configuration, Table.getD]
  by_cases heq : id = id'
  · simp [heq]
  · simp [heq, configuration, Table.getD]

theorem configuration_serve_of_ne (r : ConfigurationRequest)
    (hne : id ≠ id') : (s.serve directory id r).2.configuration id' = s.configuration id' := by
  cases r with
  | save form => rw [h.configuration_serve_save, if_neg hne]
  | delete => rfl

theorem held_serve (id : String) (r : ConfigurationRequest) (id' : String) :
    (s.serve directory id r).2.configuration id' = .empty id' ∨
      ∃ form, (s.serve directory id r).2.configuration id' = entered id' form := by
  cases r with
  | delete => exact h.held id'
  | save form =>
    rw [h.configuration_serve_save]
    split
    · rename_i heq
      exact .inr ⟨form, by rw [heq]⟩
    · exact h.held id'

/-! ### Files -/

variable (hid : IsIdentifier id)
include hid

theorem serve (r : ConfigurationRequest) : (s.serve directory id r).2.IsTidy directory folder := by
  have hheld := h.held_serve id r
  cases r with
  | save form =>
    by_cases hlabel : '/' ∈ form.label.toList
    · rw [h.serve_save_deep hid hlabel] at hheld ⊢
      exact ⟨h.shelf, h.names, hheld⟩
    · have hname := isName_fileName hid hlabel
      rw [h.serve_save hid hlabel] at hheld ⊢
      refine ⟨(h.shelf.erase hname).insert hname _, ?_, hheld⟩
      intro name hmem
      rw [keys_insert, mem_addNew, mem_keys_erase_iff] at hmem
      rcases hmem with hmem | heq
      · exact h.names name hmem.1
      · exact ⟨id, form.label, hid, (String.append_right_inj _).1 heq⟩
  | delete =>
    obtain ⟨label, hnamed⟩ := h.exists_isNamed id
    by_cases hlabel : '/' ∈ label.toList
    · rw [h.serve_delete_deep hid hnamed hlabel]
      exact h
    · have hname := isName_fileName hid hlabel
      rw [h.serve_delete hid hnamed hlabel] at hheld ⊢
      exact ⟨h.shelf.erase hname, fun name hmem => h.names name (mem_keys_erase_iff.1 hmem).1, hheld⟩

theorem get?_serve_save (form : ConfigurationForm) (hid' : IsIdentifier id') (hlabel : '/' ∉ label.toList) :
    (s.serve directory id (.save form)).2.files.texts.get? (filePath folder id' label) =
      if id = id' ∧ form.label = label then some (entered id form).text
      else s.files.texts.get? (filePath folder id' label) := by
  by_cases hform : '/' ∈ form.label.toList
  · have hne : ¬ (id = id' ∧ form.label = label) := fun heq => hlabel (heq.2 ▸ hform)
    rw [h.serve_save_deep hid hform, if_neg hne]
  · rw [h.serve_save hid hform, get?_insert, get?_erase]
    simp only [beq_iff_eq, filePath_inj hid hid']
    split <;> rfl

theorem get?_serve_delete {current : String}
    (hnamed : (s.configuration id).IsNamed id current) (hid' : IsIdentifier id') (hlabel : '/' ∉ label.toList) :
    (s.serve directory id .delete).2.files.texts.get? (filePath folder id' label) =
      if id = id' ∧ current = label then none else s.files.texts.get? (filePath folder id' label) := by
  by_cases hcurrent : '/' ∈ current.toList
  · have hne : ¬ (id = id' ∧ current = label) := fun heq => hlabel (heq.2 ▸ hcurrent)
    rw [h.serve_delete_deep hid hnamed hcurrent, if_neg hne]
  · rw [h.serve_delete hid hnamed hcurrent, get?_erase]
    simp only [beq_iff_eq, filePath_inj hid hid']

theorem get?_serve_of_ne (r : ConfigurationRequest) (hid' : IsIdentifier id') (hne : id ≠ id')
    (hlabel : '/' ∉ label.toList) :
    (s.serve directory id r).2.files.texts.get? (filePath folder id' label) =
      s.files.texts.get? (filePath folder id' label) := by
  cases r with
  | save form => rw [h.get?_serve_save hid form hid' hlabel, if_neg fun heq => hne heq.1]
  | delete =>
    obtain ⟨current, hnamed⟩ := h.exists_isNamed id
    rw [h.get?_serve_delete hid hnamed hid' hlabel, if_neg fun heq => hne heq.1]

end IsTidy

/-! ## Requests one after another -/

section Runs

variable {directory folder id : String} {s : ConfigurationStore} {requests : List (String × ConfigurationRequest)}

/-- What is asked for one configuration. -/
def requestsOf (id : String) (requests : List (String × ConfigurationRequest)) : List ConfigurationRequest :=
  (requests.filter (·.1 == id)).map (·.2)

theorem requestsOf_append_self (id : String) (requests : List (String × ConfigurationRequest))
    (r : ConfigurationRequest) : requestsOf id (requests ++ [(id, r)]) = requestsOf id requests ++ [r] := by
  simp [requestsOf]

theorem requestsOf_append_of_ne {id : String} (requests : List (String × ConfigurationRequest))
    {r : String × ConfigurationRequest} (hne : r.1 ≠ id) :
    requestsOf id (requests ++ [r]) = requestsOf id requests := by
  simp [requestsOf, hne]

theorem serveAll_append (directory : String) (s : ConfigurationStore)
    (requests : List (String × ConfigurationRequest)) (r : String × ConfigurationRequest) :
    s.serveAll directory (requests ++ [r]) = ((s.serveAll directory requests).serve directory r.1 r.2).2 := by
  rw [serveAll, foldl_append]
  rfl

theorem IsTidy.serveAll (h : s.IsTidy directory folder) (hids : ∀ r ∈ requests, IsIdentifier r.1) :
    (s.serveAll directory requests).IsTidy directory folder := by
  induction requests using reverseRecOn with
  | nil => exact h
  | append_singleton requests r ih =>
    rw [serveAll_append]
    exact (ih fun r hr => hids r (by simp [hr])).serve (hids r (by simp)) r.2

theorem requests_induction (id : String)
    {motive : (requests : List (String × ConfigurationRequest)) → (∀ r ∈ requests, IsIdentifier r.1) → Prop}
    (nil : ∀ hids, motive [] hids)
    (own : ∀ done request hdone hids, motive done hdone → motive (done ++ [(id, request)]) hids)
    (other : ∀ done r hdone hids, r.1 ≠ id → motive done hdone → motive (done ++ [r]) hids)
    (requests : List (String × ConfigurationRequest)) (hids : ∀ r ∈ requests, IsIdentifier r.1) :
    motive requests hids := by
  induction requests using reverseRecOn with
  | nil => exact nil hids
  | append_singleton done r ih =>
    have hdone : ∀ r ∈ done, IsIdentifier r.1 := fun r hr => hids r (by simp [hr])
    by_cases hr : r.1 = id
    · obtain ⟨id', request⟩ := r
      obtain rfl : id = id' := hr.symm
      exact own done request hdone hids (ih hdone)
    · exact other done r hdone hids hr (ih hdone)

theorem IsTidy.saved_of_getLast? (h : s.IsTidy directory folder) (hids : ∀ r ∈ requests, IsIdentifier r.1)
    (hid : IsIdentifier id) {form : ConfigurationForm}
    (hlast : (requestsOf id requests).getLast? = some (.save form)) :
    (s.serveAll directory requests).configuration id = entered id form ∧
      ('/' ∉ form.label.toList → (s.serveAll directory requests).files.texts.get? (filePath folder id form.label) =
        some (entered id form).text) := by
  induction requests, hids using requests_induction id with
  | nil => cases hlast
  | own done request hdone _ _ =>
    have htidy := h.serveAll hdone
    rw [requestsOf_append_self, getLast?_concat, Option.some.injEq] at hlast
    subst hlast
    rw [serveAll_append]
    refine ⟨?_, fun hlabel => ?_⟩
    · rw [htidy.configuration_serve_save, if_pos rfl]
    · rw [htidy.get?_serve_save hid form hid hlabel, if_pos ⟨rfl, rfl⟩]
  | other done r hdone hids hne ih =>
    have htidy := h.serveAll hdone
    rw [requestsOf_append_of_ne done hne] at hlast
    obtain ⟨hconfiguration, hfile⟩ := ih hlast
    rw [serveAll_append]
    refine ⟨?_, fun hlabel => ?_⟩
    · rw [htidy.configuration_serve_of_ne r.2 hne, hconfiguration]
    · rw [htidy.get?_serve_of_ne (hids r (by simp)) r.2 hid hne hlabel, hfile hlabel]

/-- A save that follows a save keeps its label, if that label could be stored. -/
def KeepsLabel : ConfigurationRequest → ConfigurationRequest → Prop
  | .save f, .save g => '/' ∉ f.label.toList → g.label = f.label
  | _, _ => True

def keptText (id label : String) : Option ConfigurationRequest → Option String
  | some (.save form) => if form.label = label then some (entered id form).text else none
  | _ => none

theorem keptText_eq_none {id label : String}
    (h : ∀ form, last = some (.save form) → form.label ≠ label) : keptText id label last = none := by
  match last with
  | none | some .delete => rfl
  | some (.save form) => exact if_neg (h form rfl)

section

variable (h : s.IsTidy directory folder)
include h

theorem IsTidy.get?_save_of_kept (hid : IsIdentifier id) {label : String}
    (hlabel : '/' ∉ label.toList) {form : ConfigurationForm}
    (hkept : s.files.texts.get? (filePath folder id label) = keptText id label last)
    (hlink : ∀ r ∈ last, KeepsLabel r (.save form)) :
    (s.serve directory id (.save form)).2.files.texts.get? (filePath folder id label) =
      keptText id label (some (.save form)) := by
  rw [h.get?_serve_save hid form hid hlabel, hkept, keptText]
  by_cases hform : form.label = label
  · rw [if_pos ⟨rfl, hform⟩, if_pos hform]
  · rw [if_neg fun heq => hform heq.2, if_neg hform]
    -- A file under another label would be that of the save before, whose label is kept.
    refine keptText_eq_none fun f hf heq => hform ?_
    exact (hlink _ hf (heq ▸ hlabel)).trans heq

theorem IsTidy.get?_delete_of_kept (hid : IsIdentifier id) {label : String}
    (hlabel : '/' ∉ label.toList) (hkept : s.files.texts.get? (filePath folder id label) = keptText id label last)
    (hheld : ∀ f, last = some (.save f) → s.configuration id = entered id f) :
    (s.serve directory id .delete).2.files.texts.get? (filePath folder id label) = none := by
  obtain ⟨current, hnamed⟩ := h.exists_isNamed id
  rw [h.get?_serve_delete hid hnamed hid hlabel, hkept]
  by_cases hcurrent : current = label
  · rw [if_pos ⟨rfl, hcurrent⟩]
  · rw [if_neg fun heq => hcurrent heq.2]
    refine keptText_eq_none fun f hf heq => hcurrent ?_
    rw [hheld f hf] at hnamed
    have hlabel := (isNamed_entered id f).label
    rw [hnamed.label, Option.some.injEq, Json.str.injEq] at hlabel
    exact hlabel.trans heq

theorem IsTidy.get?_of_isChain
    (hempty : ∀ name, folder ++ "/" ++ name ∉ s.files.texts.keys) (hids : ∀ r ∈ requests, IsIdentifier r.1)
    (hid : IsIdentifier id) (hchain : (requestsOf id requests).IsChain KeepsLabel) {label : String}
    (hlabel : '/' ∉ label.toList) :
    (s.serveAll directory requests).files.texts.get? (filePath folder id label) =
      keptText id label (requestsOf id requests).getLast? := by
  induction requests, hids using requests_induction id with
  | nil =>
    have habsent := hempty (fileName id label)
    rw [mem_keys_iff, Bool.not_eq_true, Option.isSome_eq_false_iff, Option.isNone_iff_eq_none] at habsent
    exact habsent
  | own done request hdone _ ih =>
    rw [requestsOf_append_self, isChain_append] at hchain
    obtain ⟨hbefore, -, hlink⟩ := hchain
    have hkept := ih hbefore
    rw [serveAll_append, requestsOf_append_self, getLast?_concat]
    cases request with
    | save form => rw [(h.serveAll hdone).get?_save_of_kept hid hlabel hkept fun r hr => hlink r hr _ rfl]
    | delete =>
      rw [(h.serveAll hdone).get?_delete_of_kept hid hlabel hkept fun f hf => (h.saved_of_getLast? hdone hid hf).1]
      rfl
  | other done r hdone hids hne ih =>
    rw [requestsOf_append_of_ne done hne] at hchain ⊢
    rw [serveAll_append, (h.serveAll hdone).get?_serve_of_ne (hids r (by simp)) r.2 hid hne hlabel, ih hchain]

/-! ## What is stored -/

end

/-- Is the path that of a file of the configuration? -/
def IsFileOf (folder id path : String) : Prop := Text.begins (folder ++ "/" ++ (id ++ "_")) path

instance (folder id path : String) : Decidable (IsFileOf folder id path) := inferInstanceAs (Decidable (_ = true))

/-- What is stored of a configuration agrees with what was asked for it last: after a save there is
one file at most, which holds what was entered, and otherwise there is none. -/
def Agrees (folder : String) (f : Files) (id : String) : Option ConfigurationRequest → Prop
  | some (.save form) =>
    (∀ p ∈ f.texts.keys, ∀ q ∈ f.texts.keys, IsFileOf folder id p → IsFileOf folder id q → p = q) ∧
      ∀ p t, f.texts.get? p = some t → IsFileOf folder id p → t = (entered id form).text
  | _ => ∀ p ∈ f.texts.keys, ¬ IsFileOf folder id p

theorem isFileOf_filePath (folder id label : String) : IsFileOf folder id (filePath folder id label) := by
  have hpath : filePath folder id label = folder ++ "/" ++ (id ++ "_") ++ (label ++ ".json") := by
    simp [filePath, fileName, String.append_assoc]
  rw [hpath]
  exact Text.begins_append _ _

section

variable (h : s.IsTidy directory folder)
include h

theorem IsTidy.exists_of_isFileOf (hid : IsIdentifier id) {p : String}
    (hp : p ∈ s.files.texts.keys) (hfile : IsFileOf folder id p) :
    ∃ label, '/' ∉ label.toList ∧ p = filePath folder id label := by
  obtain ⟨r, hr⟩ := Text.begins_iff.1 hfile
  obtain rfl : folder ++ "/" ++ (id ++ "_" ++ String.ofList r) = p := by
    rw [← String.toList_inj, ← hr]
    simp
  obtain ⟨id', label, hid', hname⟩ := h.names _ hp
  have hbegin : Text.begins (id ++ "_") (fileName id' label) := by
    rw [← hname]
    exact Text.begins_append _ _
  obtain rfl := eq_of_begins_fileName hid hid' hbegin
  refine ⟨label, ?_, by rw [filePath, hname]⟩
  have hflat := h.shelf.flat _ hp
  rw [hname, toList_fileName] at hflat
  exact fun hmem => hflat (by simp [hmem])

theorem IsTidy.agrees (hid : IsIdentifier id)
    (hkept : ∀ label : String, '/' ∉ label.toList →
      s.files.texts.get? (filePath folder id label) = keptText id label last) : Agrees folder s.files id last := by
  have hnone : (∀ form, last ≠ some (.save form)) → ∀ p ∈ s.files.texts.keys, ¬ IsFileOf folder id p := by
    intro hlast p hp hfile
    obtain ⟨label, hlabel, rfl⟩ := h.exists_of_isFileOf hid hp hfile
    rw [mem_keys_iff, hkept label hlabel, keptText_eq_none fun form heq => absurd heq (hlast form)] at hp
    cases hp
  match last with
  | none => exact hnone fun form => nofun
  | some .delete => exact hnone fun form => nofun
  | some (.save form) =>
    have hfile : ∀ p t, s.files.texts.get? p = some t → IsFileOf folder id p →
        p = filePath folder id form.label ∧ t = (entered id form).text := by
      intro p t hget hfile
      obtain ⟨label, hlabel, rfl⟩ := h.exists_of_isFileOf hid (mem_keys_iff.2 (by simp [hget])) hfile
      rw [hkept label hlabel, keptText] at hget
      split at hget
      · rename_i heq
        exact ⟨by rw [heq], (Option.some.inj hget).symm⟩
      · cases hget
    refine ⟨fun p hp q hq hpfile hqfile => ?_, fun p t hget hpfile => (hfile p t hget hpfile).2⟩
    obtain ⟨t, ht⟩ := Option.isSome_iff_exists.1 (mem_keys_iff.1 hp)
    obtain ⟨u, hu⟩ := Option.isSome_iff_exists.1 (mem_keys_iff.1 hq)
    rw [(hfile p t ht hpfile).1, (hfile q u hu hqfile).1]

theorem IsTidy.isChain_of_agrees (hids : ∀ r ∈ requests, IsIdentifier r.1)
    (hid : IsIdentifier id) (hagrees : ∀ done, done <+: requests →
      Agrees folder (s.serveAll directory done).files id (requestsOf id done).getLast?) :
    (requestsOf id requests).IsChain KeepsLabel := by
  induction requests, hids using requests_induction id with
  | nil => exact isChain_nil
  | own done request hdone _ ih =>
    have hbefore := ih fun done' hdone' => hagrees done' (hdone'.trans (prefix_append _ _))
    have hnow := hagrees _ (prefix_refl _)
    rw [requestsOf_append_self] at hnow ⊢
    refine isChain_append.2 ⟨hbefore, isChain_singleton _, fun x hx y hy => ?_⟩
    obtain rfl : request = y := by simpa using hy
    match x, request with
    | .save f, .save g =>
      intro hlabel
      by_contra hne
      -- The file of the save before is still there, and tells its own label.
      have hfile := (h.saved_of_getLast? hdone hid hx).2 hlabel
      have hget : (s.serveAll directory (done ++ [(id, .save g)])).files.texts.get? (filePath folder id f.label) =
          some (entered id f).text := by
        rw [serveAll_append, (h.serveAll hdone).get?_serve_save hid g hid hlabel,
          if_neg fun heq => hne heq.2, hfile]
      rw [getLast?_concat] at hnow
      have htext := hnow.2 _ _ hget (isFileOf_filePath folder id f.label)
      exact hne (label_eq_of_text_eq htext).symm
    | .save _, .delete | .delete, .save _ | .delete, .delete => trivial
  | other done r _ _ hne ih =>
    rw [requestsOf_append_of_ne done hne]
    exact ih fun done' hdone' => hagrees done' (hdone'.trans (prefix_append _ _))

end

/-- A save under a label without a divider is stored. At any time one file at most is stored of each
configuration, with the values of its last save and gone after its deletion, exactly if each save
that follows a save under such a label keeps it. -/
theorem serveAll_agrees_iff {directory folder : String} {files : Files}
    {requests : List (String × ConfigurationRequest)} (hshelf : files.IsShelf (folderPath directory) folder)
    (hempty : ∀ name, folder ++ "/" ++ name ∉ files.texts.keys) (hids : ∀ r ∈ requests, IsIdentifier r.1) :
    (∀ id form, IsIdentifier id → (requestsOf id requests).getLast? = some (.save form) → '/' ∉ form.label.toList →
      (serveAll directory { files } requests).files.texts.get? (filePath folder id form.label) =
        some (entered id form).text) ∧
    ((∀ done, done <+: requests → ∀ id, IsIdentifier id →
        Agrees folder (serveAll directory { files } done).files id (requestsOf id done).getLast?) ↔
      ∀ id, IsIdentifier id → (requestsOf id requests).IsChain KeepsLabel) := by
  have htidy : IsTidy directory folder { files } :=
    ⟨hshelf, fun name hmem => absurd hmem (hempty name), fun id => .inl rfl⟩
  refine ⟨fun id form hid hlast => (htidy.saved_of_getLast? hids hid hlast).2, fun hagrees id hid => ?_, ?_⟩
  · exact htidy.isChain_of_agrees hids hid fun done hdone => hagrees done hdone id hid
  · intro hchain done hdone id hid
    have hids' : ∀ r ∈ done, IsIdentifier r.1 := fun r hr => hids r (hdone.subset hr)
    obtain ⟨rest, rfl⟩ := hdone
    have hdone := hchain id hid
    rw [requestsOf, filter_append, map_append, isChain_append] at hdone
    exact (htidy.serveAll hids').agrees hid fun label => htidy.get?_of_isChain hempty hids' hid hdone.1

end Runs

/-! ## A changed label -/

/-- Files without a stored configuration. -/
def emptyShelf : Files := { folders := ["config/execution_configurations"] }

theorem isShelf_emptyShelf : emptyShelf.IsShelf (folderPath "config") "config/execution_configurations" where
  resolves := by decide +kernel
  named := by decide
  listed := by decide
  flat := nofun
  noFolder name hmem := by
    have hlength := congrArg String.length (mem_singleton.1 hmem)
    simp only [String.length_append] at hlength
    have hdivider : "/".length = 1 := rfl
    omega

/-- Two configurations, of which one takes another label after a deletion and the other after a save
that fails. -/
def keptLabels : List (String × ConfigurationRequest) :=
  [("A1", .save { label := "a" }), ("B2", .save { label := "b/c" }), ("A1", .save { label := "a", notes := "n" }),
    ("B2", .save { label := "b" }), ("A1", .delete), ("A1", .save { label := "c" })]

theorem serveAll_agrees_iff_keptLabels :
    emptyShelf.IsShelf (folderPath "config") "config/execution_configurations" ∧
      (∀ r ∈ keptLabels, IsIdentifier r.1) ∧
      ∀ done, done <+: keptLabels → ∀ id, IsIdentifier id →
        Agrees "config/execution_configurations" (serveAll "config" { files := emptyShelf } done).files id
          (requestsOf id done).getLast? := by
  have hids : ∀ r ∈ keptLabels, IsIdentifier r.1 := by decide +kernel
  refine ⟨isShelf_emptyShelf, hids, (serveAll_agrees_iff isShelf_emptyShelf (fun _ => nofun) hids).2.2 ?_⟩
  intro id _
  by_cases hfirst : "A1" = id
  · subst hfirst
    simp [requestsOf, keptLabels, KeepsLabel]
  · by_cases hsecond : "B2" = id
    · subst hsecond
      simp [requestsOf, keptLabels, KeepsLabel]
    · simp [requestsOf, keptLabels, hfirst, hsecond]

/-- A configuration that is saved under two labels. -/
def changedLabel : List (String × ConfigurationRequest) :=
  [("ID", .save { label := "a" }), ("ID", .save { label := "b" })]

/-- The file of the first label stays beside that of the second, also after a deletion. -/
theorem serveAll_changedLabel :
    (serveAll "config" { files := emptyShelf } changedLabel).files.texts.keys =
        ["config/execution_configurations/ID_a.json", "config/execution_configurations/ID_b.json"] ∧
      (serveAll "config" { files := emptyShelf } (changedLabel ++ [("ID", .delete)])).files.texts.keys =
        ["config/execution_configurations/ID_a.json"] ∧
      ¬ Agrees "config/execution_configurations" (serveAll "config" { files := emptyShelf } changedLabel).files "ID"
        (requestsOf "ID" changedLabel).getLast? := by
  have hkeys : (serveAll "config" { files := emptyShelf } changedLabel).files.texts.keys =
      ["config/execution_configurations/ID_a.json", "config/execution_configurations/ID_b.json"] := by
    decide +kernel
  refine ⟨hkeys, by decide +kernel, fun hagrees => ?_⟩
  have hlast : (requestsOf "ID" changedLabel).getLast? = some (.save { label := "b" }) := by
    simp [requestsOf, changedLabel]
  rw [hlast] at hagrees
  have hone := hagrees.1 "config/execution_configurations/ID_a.json" (by simp [hkeys])
    "config/execution_configurations/ID_b.json" (by simp [hkeys])
  exact absurd (hone (by decide +kernel) (by decide +kernel)) (by decide)

end ParallelPatterns.ConfigurationStore
