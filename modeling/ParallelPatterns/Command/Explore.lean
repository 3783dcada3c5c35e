import ParallelPatterns.Command.Options
import ParallelPatterns.Detection
import ParallelPatterns.Encoding.Task
import ParallelPatterns.Graph.RecursiveCalls

/-!
# The command that looks for patterns

The command reads the files of an instrumented run, looks for patterns and writes what it found. It
can also write the report on recursive calls instead.
-/

namespace ParallelPatterns.ExploreCommand

def options : CommandOptions where
  options := [
    { name := "--path", value := some "./" },
    { name := "--cu-xml", value := some "Data.xml" },
    { name := "--dep-file", value := some "dp_run_dep.txt" },
    { name := "--plugins" },
    { name := "--loop-counter", value := some "loop_counter_output.txt" },
    { name := "--reduction", value := some "reduction.txt" },
    { name := "--json" },
    { name := "--fmap", value := some "FileMapping.txt" },
    { name := "--task-pattern", takesValue := false },
    { name := "--cu-inst-res" },
    { name := "--llvm-cxxfilt-path" },
    { name := "--dp-build-path", value := some "discopop/build" },
    { name := "--generate-data-cu-inst" },
    { name := "--profiling", value := some "false" },
    { name := "--dump-pet", value := some "false" },
    { name := "--dump-detection-result", value := some "true" }]
  usage := "Usage: [--path <path>] [--cu-xml <cuxml>] [--dep-file <depfile>] [--plugins <plugs>] " ++
    "[--loop-counter <loopcount>] [--reduction <reduction>] [--json <json_out>] [--fmap <fmap>] " ++
    "[--task-pattern] [--cu-inst-res <cuinstres>] [--llvm-cxxfilt-path <cxxfp>] " ++
    "[--dp-build-path=<dpbuildpath>] [--generate-data-cu-inst <outputdir>] [--profiling <bool>] " ++
    "[--dump-pet <bool>] [--dump-detection-result <bool>]"
  hasVersion := true

def missingMessage (path : String) : String := "File not found: \"" ++ path ++ "\""

structure Request where
  paths : ProgramPaths
  loops : String
  recursionReport : Option String
  hasPlugins : Bool
  tasks : Option TaskInput
  buildDirectory : String
  output : Option String

namespace Request

def optional (value : String) : Option String := if value == "None" then none else some value

def ofValues (files : Files) (known values : Table String String) : Request :=
  let value (name : String) : String := values.getD name ""
  let pathOf (file : String) : String := Files.join (value "--path") file
  let paths : ProgramPaths := {
    units := pathOf (value "--cu-xml"), dependences := pathOf (value "--dep-file")
    reductions := pathOf (value "--reduction"), mapping := pathOf "FileMapping.txt" }
  let demangler : Demangler :=
    { known, program := (optional (value "--llvm-cxxfilt-path")).getD ({} : Demangler).program }
  let tasks : TaskInput := { files, paths, calls := pathOf (value "--cu-inst-res"), demangler }
  { paths
    loops := pathOf (value "--loop-counter")
    recursionReport := optional (value "--generate-data-cu-inst")
    hasPlugins := value "--plugins" != "None"
    tasks := if value "--task-pattern" == "True" then some tasks else none
    buildDirectory := value "--dp-build-path"
    output := optional (value "--json") }

def missing? (r : Request) (files : Files) : Option String :=
  [r.paths.units, r.paths.dependences, r.loops, r.paths.reductions, r.paths.mapping].find? fun p =>
    !files.isFile p

/-- Writes the report on recursive calls and ends. The counts of the loops stand in for the
reductions, and the reductions for the file mapping. -/
def reportRecursion (r : Request) (directory : String) : Filing (List String) := do
  let files ← get
  let g ← loadGraph files { r.paths with reductions := r.loops, mapping := r.paths.reductions }
  set (← g.writeRecursionReport files directory)
  throw (.exitCode (some 0))

def detect (r : Request) (files : Files) : Result (Graph × Findings × Option Plan) := do
  let input ← ProgramInput.load files r.paths
  let g ← input.toGraph
  if r.hasPlugins then throw .noSuchModule
  let search : Analysis (Findings × Option Plan) := do
    prepareGraph
    let f ← detectPlain
    let plan ← match r.tasks with
      | none => pure none
      | some t => some <$> t.detect input.units (some r.buildDirectory)
    return (← addGpuRegions files (Files.directoryOf (Files.absolute r.paths.mapping)) f, plan)
  let (found, g) := search.runOn g
  let (f, plan) ← found
  return (g, f, plan)

def report (g : Graph) (f : Findings) (plan : Option Plan) : Json :=
  let tasks := plan.map fun p =>
    ("task", p.showGroups (.arr ((p.current.filterMap p.known.get?).map fun s => .obj (s.attributes p))))
  .obj (((f.toJson g).members?.getD []) ++ tasks.toList)

/-- Looks for patterns and writes what was found; gives what is printed. -/
def explore (r : Request) : Filing (List String) := do
  let files ← get
  let (g, f, plan) ← r.detect files
  match r.output with
  | none => return [(← f.text g files).1]
  | some path =>
    Filing.write path ((report g f plan).indented 2)
    return []

end Request

def inputs (args : List String) : Result (List String) := do
  let r := Request.ofValues {} ∅ (← options.read args)
  let beside (path name : String) : String := Files.join (Files.directoryOf (Files.absolute path)) name
  return [r.paths.units, r.paths.dependences, r.loops, r.paths.reductions, r.paths.mapping,
    beside r.paths.units "static_dependencies.txt", beside r.paths.mapping "memory_regions.txt"] ++
    (r.tasks.map (·.calls)).toList ++ r.recursionReport.toList ++
    (r.output.map fun p => Files.directoryOf (Files.absolute p)).toList

/-- Runs the command; gives what is printed. If a file is missing nothing is done. -/
def run (known : Table String String) (args : List String) : Filing (List String) := do
  let files ← get
  let r := Request.ofValues files known (← options.read args)
  match r.missing? files, r.recursionReport with
  | some path, _ => return [missingMessage path]
  | none, some directory => r.reportRecursion directory
  | none, none => r.explore

end ParallelPatterns.ExploreCommand
