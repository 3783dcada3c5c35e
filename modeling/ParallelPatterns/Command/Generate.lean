import ParallelPatterns.Command.Options
import ParallelPatterns.Directive.Generate
import ParallelPatterns.Directive.PatternFile
import ParallelPatterns.Input.FileMapping

/-!
# The command that inserts directives

The command reads the file mapping and the file of found patterns and writes the changed sources
into a directory, at the places that they have below the folder of the instrumented run.
-/

namespace ParallelPatterns.GenerateCommand

def options : CommandOptions where
  options := [
    { name := "--fmap", isRequired := true },
    { name := "--json", isRequired := true },
    { name := "--outputdir", isRequired := true },
    { name := "--patterns" },
    { name := "--compile-check-command" },
    { name := "--skip-compilation-check", takesValue := false }]
  usage := "Usage: --fmap <path> --json <path> --outputdir <path> [--patterns <str>] " ++
    "[--compile-check-command <str>] [--skip-compilation-check]"

def choices : List String := ["reduction", "do_all", "simple_gpu", "combined_gpu"]

def chosenTypes (value : String) : Result (List String) :=
  if value == "None" then .ok []
  else (Text.split "," value).mapM fun type =>
    if choices.contains type then .ok type else .error (.unsupportedPatternName type)

def runFolder : String := "/.discopop/"

/-- Where the changed source of a file is written. -/
def outputPath (directory path : String) : Result String :=
  match Text.split runFolder path with
  | _ :: place :: _ => .ok (Files.join directory place)
  | _ => .error .outOfRange

/-- Creates a directory if nothing is there; its parent must exist. -/
def makeDirectory (path : String) : Filing Unit := do
  let files ← get
  if files.present path then return
  if path == "" || !files.isDirectory (Files.directoryOf (Files.absolute path)) then throw .noSuchFile
  set (files.makeFolder path)

/-- The files that the command may read, besides the sources that the file mapping names. -/
def inputs (args : List String) : Result (List String) := do
  let values ← options.read args
  let directory := values.getD "--outputdir" ""
  return [values.getD "--fmap" "", values.getD "--json" "", directory,
    Files.directoryOf (Files.absolute directory)]

def run (args : List String) : Filing Unit := do
  let values ← options.read args
  let value (name : String) : String := values.getD name ""
  let mapping := Files.join workingDirectory (value "--fmap")
  let patterns := Files.join workingDirectory (value "--json")
  let directory := value "--outputdir"
  let types ← chosenTypes (value "--patterns")
  for path in [mapping, patterns] do
    if !(← get).isFile path then throw (.commandFileNotFound path)
  makeDirectory directory
  let files ← get
  let paths ← FileMapping.load files mapping
  let texts ← PatternFile.load files patterns types
  let check : Option SourceCheck :=
    if value "--skip-compilation-check" == "False" then some fun _ _ _ => .error .missingProperty else none
  let sources ← generateSources files paths check texts
  let outputs ← sources.entries.mapM fun (id, text) => do
    return (← outputPath directory (paths.getD id ""), text)
  for (path, text) in (Table.ofList outputs).entries do
    Filing.write path text

end ParallelPatterns.GenerateCommand
