import ParallelPatterns.Failure
import ParallelPatterns.Table

/-!
# Names of functions as the source writes them

Compiled programs name a function together with the types of its arguments in a mangled form. An
outer program turns such names back; names that it was asked for before are known.
-/

namespace ParallelPatterns

/-- How mangled names are turned back. -/
structure Demangler where
  known : Table String String := ∅
  program : String := "llvm-cxxfilt"
  /-- What the program prints for a name, if it can be run; it prints nothing for other names. -/
  answers : Option (Table String String) := none
  deriving Inhabited

namespace Demangler

def firstLine (s : String) : String := (Text.cut "\n" s).1

def demangle (d : Demangler) (name : String) : Result String :=
  match d.known.get? name, d.answers with
  | some s, _ => .ok s
  | none, some answers => .ok (firstLine (answers.getD name ""))
  | none, none => .error (.noDemangler d.program)

def sourceName (d : Demangler) (name : String) : Result String := do
  return (Text.cut "(" (← d.demangle name)).1

end Demangler

end ParallelPatterns
