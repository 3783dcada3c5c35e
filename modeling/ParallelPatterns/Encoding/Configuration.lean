import ParallelPatterns.ConfigurationStore
import ParallelPatterns.Json.Encode

/-!
# The editing of a configuration as JSON

`ConfigurationDesk` edits one configuration step by step. A step is an array with its name in front;
its answer shows the values of the configuration, the stored files and what was reported.
-/

namespace ParallelPatterns

instance : Decode ConfigurationForm where
  decode j :=
    let entered (key : String) : String := decode (j.field key)
    { label := entered "label", description := entered "description", executableName := entered "executable_name"
      executableArguments := entered "executable_args", makeFlags := entered "make_flags"
      projectPath := entered "project_path", linkerFlags := entered "linker_flags"
      makeTarget := entered "make_target", skipsParameters := (j.get? "skip").getD (.str "")
      tags := entered "tags", notes := entered "notes" }

instance : Encode Configuration := ⟨fun c => encode c.values⟩

structure ConfigurationDesk where
  store : ConfigurationStore
  reports : List String := []

namespace ConfigurationDesk

def id : String := "ID"

def directory : String := "config"

variable (d : ConfigurationDesk)

def configuration : Configuration := d.store.configuration id

def storedFiles : Table String Json :=
  let folder := directory ++ "/" ++ Configuration.folder ++ "/"
  ⟨(d.store.files.texts.entries.filter fun e => Text.begins folder e.1).map fun e =>
    (Text.drop folder.length e.1, (Json.parse? e.2).getD .null)⟩

def serve (request : ConfigurationRequest) (reports : List String) : Result Unit × ConfigurationDesk :=
  match d.store.serve directory id request with
  | (.ok _, store) => (.ok (), { store, reports := d.reports ++ reports })
  | (.error f, store) => (.error f, { d with store })

def listShown : String := "<configurations>"

def answer (members : List (String × Json)) : Json × ConfigurationDesk :=
  (.obj (members ++ [("files", encode d.storedFiles), ("out", encode d.reports)]), { d with reports := [] })

def step (a : Json) : Option (Result Json) × ConfigurationDesk :=
  match (decode (a.item 0) : String) with
  | "config" =>
    let read : Result Configuration := match a.item 1 with
      | .str text => (Configuration.empty id).withStored text
      | _ => .ok (.empty id)
    let c := read.toOption.getD (.empty id)
    (some (read.map fun c => .obj [("id_ok", .bool true), ("values", encode c)]),
      { d with store.held := d.store.held.insert id c })
  | "config_json" => (some (.ok (.str d.configuration.text)), d)
  | "tags" => (some (d.configuration.tags.map encode), d)
  | "save_changes" =>
    let shown := match a.item 2 with
      | .bool false => []
      | _ => [listShown]
    match d.serve (.save (decode (a.item 1))) (shown ++ ["Saved configuration"]) with
    | (.ok _, d) => let (j, d) := d.answer [("values", encode d.configuration)]; (some (.ok j), d)
    | (.error f, d) => (some (.error f), d)
  | "delete" =>
    match d.serve .delete [listShown] with
    | (.ok _, d) =>
      let (j, d) := d.answer [("events", encode (List.replicate (decode (a.item 1)) "destroyed"))]
      (some (.ok j), d)
    | (.error f, d) => (some (.error f), d)
  | _ => (none, d)

def answers (files : Files) (steps : List Json) : List (Option (Result Json)) :=
  (steps.foldl (fun (rs, d) a => let (r, d) := step d a; (rs ++ [r], d))
    (([], { store := { files } }) : List (Option (Result Json)) × ConfigurationDesk)).1

end ConfigurationDesk

end ParallelPatterns
