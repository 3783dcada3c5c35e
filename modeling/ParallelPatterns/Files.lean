import ParallelPatterns.Failure
import ParallelPatterns.Table

/-!
# A store of files

The files that an analysis reads and writes, by path. All files lie below one working directory,
written `$DIR`; a relative path starts there. A path is resolved part by part, so that `..` leaves
only a directory that exists.
-/

namespace ParallelPatterns

open Text

def workingDirectory : String := "$DIR"

structure Files where
  /-- The texts of the files, by path from the working directory. -/
  texts : Table String String := ∅
  /-- Directories that exist without holding a file. -/
  folders : List String := []
  deriving Inhabited

namespace Files

def parts? (path : String) : Option (List String) :=
  if path == workingDirectory then some []
  else if begins (workingDirectory ++ "/") path then
    some ((split "/" (drop (workingDirectory.length + 1) path)).filter (· ≠ ""))
  else if begins "/" path then none
  else some ((split "/" path).filter (· ≠ ""))

variable (f : Files)

def isFolder (path : String) : Bool :=
  path == "" || f.folders.contains path ||
    (f.texts.keys ++ f.folders).any fun k => begins (path ++ "/") k

def resolveGo (f : Files) : List String → List String → Option (List String)
  | acc, [] => some acc.reverse
  | acc, p :: ps =>
    if p == "." then (if f.isFolder ("/".intercalate acc.reverse) then resolveGo f acc ps else none)
    else if p == ".." then
      match acc with
      | [] => none
      | _ :: up => if f.isFolder ("/".intercalate acc.reverse) then resolveGo f up ps else none
    else resolveGo f (p :: acc) ps

def resolve? (path : String) : Option String :=
  if path == "" then none
  else match parts? path with
    | none => none
    | some ps => (resolveGo f [] ps).map ("/".intercalate ·)

def raw? (path : String) : Option String := (f.resolve? path).bind f.texts.get?

def isFile (path : String) : Bool := (f.raw? path).isSome

def isDirectory (path : String) : Bool := (f.resolve? path).any fun p => (f.texts.get? p).isNone && f.isFolder p

def present (path : String) : Bool := f.isFile path || f.isDirectory path

def read (path : String) : Result String :=
  match f.raw? path with
  | some s => .ok (plainLineEnds s)
  | none => if f.isDirectory path then .error .isDirectory else .error .noSuchFile

def directoryOf (path : String) : String :=
  match findLast? "/" path with
  | none => ""
  | some i =>
    let head := take (i + 1) path
    if head.toList.all (· = '/') then head else trimEndBy (· = '/') head

def nameOf (path : String) : String := afterLast "/" path

def join (a b : String) : String :=
  if begins "/" b || begins workingDirectory b then b
  else if a == "" || ends "/" a then a ++ b
  else a ++ "/" ++ b

/-- Normalises the parts of a path without looking at the files. -/
def normalGo : List String → List String → List String
  | acc, [] => acc.reverse
  | acc, p :: ps =>
    if p == "" || p == "." then normalGo acc ps
    else if p == ".." then normalGo acc.tail ps
    else normalGo (p :: acc) ps

def absolute (path : String) : String :=
  if begins "/" path then "/" ++ "/".intercalate (normalGo [] (split "/" path))
  else
    let path := if path == workingDirectory then "" else
      if begins (workingDirectory ++ "/") path then drop (workingDirectory.length + 1) path
      else path
    let ps := normalGo [] (split "/" path)
    if ps.isEmpty then workingDirectory else workingDirectory ++ "/" ++ "/".intercalate ps

def write (path text : String) : Result Files :=
  match f.resolve? path with
  | none => .error .noSuchFile
  | some p =>
    if (f.texts.get? p).isNone && f.isFolder p then .error .isDirectory
    else if f.isFolder (directoryOf p) then .ok { f with texts := f.texts.insert p text }
    else .error .noSuchFile

def makeFolder (path : String) : Files :=
  match f.resolve? path with
  | none => f
  | some p => if f.isFolder p then f else { f with folders := f.folders ++ [p] }

/-- Puts a file into the store together with its directories. -/
def place (path text : String) : Files := { f with texts := f.texts.insert path text }

def remove (path : String) : Files :=
  match f.resolve? path with
  | none => f
  | some p => { f with texts := f.texts.erase p }

def below (directory : String) : List String :=
  let start := if directory == "" then "" else directory ++ "/"
  let inside := (f.texts.keys ++ f.folders).filterMap fun p =>
    if begins start p then some ((drop start.length p)) else none
  distinct (inside.flatMap fun p =>
    let parts := (split "/" p).filter (· ≠ "")
    (List.range parts.length).map fun (n : Nat) => "/".intercalate (parts.take (n + 1)))

end Files

abbrev Filing := ExceptT Failure (StateM Files)

namespace Filing

/-- Writes a file, whose directory must exist. -/
def write (path text : String) : Filing Unit := do set (← (← get).write path text)

end Filing

end ParallelPatterns
