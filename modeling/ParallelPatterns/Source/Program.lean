import ParallelPatterns.Source.Call

/-!
# The source of a program

The files of a program with the paths they are known by, and the way in which mangled names are
turned back.
-/

namespace ParallelPatterns

structure Program where
  files : Files
  paths : Table String String
  demangler : Demangler

namespace Program

def pathsOf (mapping : String) : Result (Table String String) :=
  (Text.feedLines mapping).foldlM (fun t line =>
    match Text.split "\t" (Text.replace "\n" "" line) with
    | id :: path :: _ => .ok (t.insert id path)
    | _ => .error .outOfRange) ∅

def load (files : Files) (mappingPath : String) (demangler : Demangler) : Result Program := do
  return { files, paths := ← pathsOf (← files.read mappingPath), demangler }

def callText? (p : Program) (line : Int) (file : String) (name : Option String) : Result (Option String) :=
  match Source.callText p.files p.paths line file name with
  | .ok s => .ok (some s)
  | .error .outOfRange => .ok none
  | .error e => .error e

end Program

end ParallelPatterns
