import ParallelPatterns.Command.Compile
import ParallelPatterns.Command.Explore
import ParallelPatterns.Command.Generate

/-!
# The command line

The first argument names a command, the others are its arguments. The files that the command may
read are taken from the current directory; what it writes is written there. `compile` prints the
command line that compiles for an instrumented run.
-/

namespace ParallelPatterns.CommandLine

def here : IO String := do return (← IO.currentDir).toString

def readPath (files : Files) (path : String) : IO Files := do
  let directory ← IO.currentDir
  match files.resolve? (Files.absolute path) with
  | none => return files
  | some place =>
    let full := directory / place
    if ← full.isDir then return { files with folders := addNew files.folders place }
    if !(← full.pathExists) then return files
    let text ← IO.FS.readFile full
    return files.place place (Text.replace (← here) workingDirectory text)

def sourcesOf (files : Files) (paths : List String) : List String :=
  paths.flatMap fun p =>
    match (files.read p >>= FileMapping.parse : Result (Table Int String)) with
    | .ok t => t.values
    | .error _ => []

def readInputs (paths : List String) : IO Files := do
  let files ← paths.foldlM readPath {}
  (sourcesOf files paths).foldlM readPath files

def writeChanges (before after : Files) : IO Unit := do
  let directory ← IO.currentDir
  for folder in after.folders do
    if !before.folders.contains folder then IO.FS.createDirAll (directory / folder)
  for (path, text) in after.texts.entries do
    if before.texts.get? path != some text then
      IO.FS.writeFile (directory / path) (Text.replace workingDirectory (← here) text)

def finish {α : Type} (r : Result α) : IO UInt32 := do
  match r with
  | .ok _ => return 0
  | .error (.exitCode code) => return (code.getD 0).toNat.toUInt32
  | .error f =>
    IO.eprintln (f.message.getD "The input cannot be read.")
    return 1

def runOn {α : Type} (paths : Result (List String)) (command : Filing α) (shown : α → List String) : IO UInt32 := do
  match paths with
  | .error f => finish (.error f : Result α)
  | .ok paths =>
    let before ← readInputs paths
    let (r, after) := command.run.run before
    writeChanges before after
    if let .ok a := r then (shown a).forM fun s => IO.println s
    finish r

/-- The files below the current directory, without their texts. -/
def listing : IO (List String) := do
  let root ← here
  let paths ← (← IO.currentDir).walkDir
  return paths.toList.map fun p => Text.drop (root.length + 1) p.toString

def compile (args : List String) : IO UInt32 := do
  let install ← IO.getEnv "DISCOPOP_INSTALL"
  let files := (← listing).foldl (fun (f : Files) p => f.place p "") {}
  match (do (← CompileCommand.Request.ofArguments args).wrapper install : Result CompilerWrapper) with
  | .error f => finish (.error f : Result Unit)
  | .ok w =>
    let rest := ((CompileCommand.Request.ofArguments args).toOption.map (·.rest)).getD []
    let (r, after) := (w.wrap rest).run.run files
    writeChanges files after
    if let .ok words := r then IO.println (" ".intercalate words)
    finish r

def run : List String → IO UInt32
  | "explore" :: args => runOn (ExploreCommand.inputs args) (ExploreCommand.run ∅ args) id
  | "generate" :: args => runOn (GenerateCommand.inputs args) (GenerateCommand.run args) fun _ => []
  | "compile" :: args => compile args
  | _ => do
    IO.eprintln "Usage: (explore | generate | compile) <arguments>"
    return 1

end ParallelPatterns.CommandLine

def main (args : List String) : IO UInt32 := ParallelPatterns.CommandLine.run args
