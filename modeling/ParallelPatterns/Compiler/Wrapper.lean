import ParallelPatterns.Directive.CheckCommand

/-!
# Compiling for an instrumented run

A wrapper around the compiler adds the arguments that load the instrumenting passes when sources are
compiled, and the run-time library when a program is linked. Before sources are compiled it writes
the file mapping, which numbers the source files below the current directory.
-/

namespace ParallelPatterns

/-- Is the text a name that does not begin with a character, has at least two characters before its
ending, and ends in a point and one of the endings? A line feed may stand at the end. -/
def hasEnding (notFirst : Char) (endings : List String) (name : String) : Bool :=
  let name := if Text.ends "\n" name then Text.dropEnd 1 name else name
  endings.any fun e =>
    Text.ends ("." ++ e) name &&
      match (Text.dropEnd (e.length + 1) name).toList with
      | first :: c :: cs => first ≠ notFirst && !(c :: cs).contains '\n'
      | _ => false

def isCompile (args : List String) : Bool :=
  args.contains "-c" || args.any (hasEnding '-' ["c", "cc", "cpp"])

def isLink (args : List String) : Bool := !args.contains "-c"

namespace FileMapping

def name : String := "FileMapping.txt"

def lists (name : String) : Bool := hasEnding '.' ["c", "cc", "cpp", "h", "hpp", "ipp"] name

/-- The lines of the file mapping for paths in order, numbered from one. -/
def text (paths : List String) : String :=
  String.join (paths.zipIdx.map fun (p, i) => toString (i + 1) ++ "\t" ++ p ++ "\n")

def listedPaths (files : Files) (directory : String) : List String :=
  let paths := (files.below directory).filter fun p =>
    lists (Files.nameOf p) && files.isFile (Files.join directory p)
  (paths.map fun p => Files.absolute (Files.join directory p)).mergeSort fun a b => !(b < a)

def update (directory : String) : Filing Unit := do
  Filing.write (Files.join directory name) (text (listedPaths (← get) directory))

end FileMapping

structure CompilerWrapper where
  makesUnits : Bool := false
  recordsDependences : Bool := false
  recordsReductions : Bool := false
  compiler : String := "clang++"
  install : Option String := none
  directory : String := ""
  deriving DecidableEq, Repr, Inhabited

namespace CompilerWrapper

def systemFolders : List String := ["/usr/local/lib", "/usr/lib", "/lib"]

variable (w : CompilerWrapper)

def libraryFolders : List String :=
  match w.install with
  | some root => [root, root ++ "/libi", root ++ "/rtlib", root ++ "/lib"]
  | none => "/home/user/.local/lib" :: systemFolders

def isThere (files : Files) (path : String) : Bool :=
  files.present (Files.join w.directory path) || systemFolders.contains (Text.trimEndBy (· = '/') path)

def notFoundMessage (name : String) (folders : List String) : String :=
  "File " ++ name ++ " not found. Searched in: " ++ ", ".intercalate folders ++ ".\n" ++
    "Build DiscoPoP and set DISCOPOP_INSTALL environment variable."

def library (files : Files) (name : String) : Result String :=
  match w.libraryFolders.find? fun folder => w.isThere files (Files.join folder name) with
  | some folder => .ok (Files.join folder name)
  | none => .error (.exitText (notFoundMessage name w.libraryFolders))

def passes : List String :=
  (if w.makesUnits then ["LLVMCUGeneration.so"] else []) ++
    (if w.recordsDependences then ["LLVMDPInstrumentation.so"] else []) ++
    (if w.recordsReductions then ["LLVMDPReduction.so"] else [])

variable (args : List String)

def compileArguments : Filing (List String) := do
  if !isCompile args || w.passes.isEmpty then return []
  FileMapping.update w.directory
  let libraries ← w.passes.mapM fun name => do return (← w.library (← get) name)
  return ["-g", "-O0", "-fno-discard-value-names"] ++
    libraries.flatMap (fun l => ["-Xclang", "-load", "-Xclang", l]) ++
    ["-mllvm", "-fm-path", "-mllvm", "./FileMapping.txt"]

def linkArguments : Filing (List String) := do
  if !isLink args || !(w.recordsDependences || w.recordsReductions) then return []
  let library ← w.library (← get) "libDiscoPoP_RT.a"
  return ["-L" ++ Files.directoryOf library, "-lDiscoPoP_RT", "-lpthread"]

def wrap : Filing (List String) := do
  let before ← w.compileArguments args
  let behind ← w.linkArguments args
  return [w.compiler] ++ before ++ args ++ behind

def invoke : Filing Int := do
  let args ← w.wrap args
  return if ← Command.run (← get) args then 0 else 1

end CompilerWrapper

end ParallelPatterns
