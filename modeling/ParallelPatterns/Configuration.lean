import ParallelPatterns.Files
import ParallelPatterns.Json.Access
import ParallelPatterns.Json.Reader

/-!
# Stored configurations of runs

A configuration holds how a project is built and run. It is stored as an object in a file of its
own, whose name is made of the configuration's identifier and its label.
-/

namespace ParallelPatterns

structure ConfigurationForm where
  label : String := ""
  description : String := ""
  executableName : String := ""
  executableArguments : String := ""
  makeFlags : String := ""
  projectPath : String := ""
  linkerFlags : String := ""
  makeTarget : String := ""
  skipsParameters : Json := .int 0
  tags : String := ""
  notes : String := ""
  deriving Inhabited

/-- The configuration of a run: its values by name. -/
structure Configuration where
  values : Table String Json
  deriving Inhabited

namespace Configuration

def empty (id : String) : Configuration where
  values := .ofList [
    ("label", .str ""), ("description", .str ""), ("executable_name", .str ""), ("executable_arguments", .str ""),
    ("make_flags", .str ""), ("project_path", .str ""), ("linker_flags", .str ""), ("make_target", .str ""),
    ("memory_profiling_skip_function_parameters", .int 0), ("notes", .str ""), ("working_copy_path", .str ""),
    ("tags", .str ""), ("explorer_flags", .str "--json=patterns.json"), ("id", .str id)]

variable (c : Configuration)

def withStored (text : String) : Result Configuration :=
  match Json.parse? text with
  | none => .error .malformedObject
  | some (.obj ms) => .ok { values := ms.foldl (fun t (k, v) => t.insert k v) c.values }
  | some _ => .error .wrongSort

def text : String := (Json.obj c.values.entries).compact

def workingCopy (project : String) : String := project ++ "/.discopop"

def withForm (f : ConfigurationForm) : Configuration :=
  let entered : List (String × Json) := [
    ("label", .str f.label), ("description", .str f.description), ("executable_name", .str f.executableName),
    ("executable_arguments", .str f.executableArguments), ("make_flags", .str f.makeFlags),
    ("project_path", .str f.projectPath), ("working_copy_path", .str (workingCopy f.projectPath)),
    ("linker_flags", .str f.linkerFlags), ("make_target", .str f.makeTarget),
    ("memory_profiling_skip_function_parameters", f.skipsParameters), ("tags", .str f.tags),
    ("notes", .str f.notes)]
  { values := entered.foldl (fun t (k, v) => t.insert k v) c.values }

def tags : Result (List String) :=
  match c.values.get? "tags" with
  | some (.str tags) => .ok ((Text.split " " tags).filter (· ≠ ""))
  | some _ => .error .missingProperty
  | none => .error .unknownKey

def folder : String := "execution_configurations"

variable (directory : String)

def path (c : Configuration) : Result String := do
  let id ← match c.values.get? "id" with
    | some id => pure (id.text?.getD id.literal)
    | none => throw .unknownKey
  let label ← match c.values.get? "label" with
    | some label => label.text
    | none => throw .unknownKey
  return Files.join (Files.join directory folder) (id ++ "_" ++ label ++ ".json")

def delete (c : Configuration) : Filing Unit := do
  let path ← c.path directory
  if (← get).isDirectory path then throw .isDirectory
  modify (·.remove path)

def save (c : Configuration) (f : ConfigurationForm) : Filing Configuration := do
  let c := c.withForm f
  c.delete directory
  Filing.write (← c.path directory) c.text
  return c

end Configuration

end ParallelPatterns
