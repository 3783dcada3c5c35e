import ParallelPatterns.Compiler.Wrapper

/-!
# The command that compiles for an instrumented run

The command takes a few options of its own and passes all other arguments to the compiler. A long
option may be shortened as long as only one option begins that way.
-/

namespace ParallelPatterns.CompileCommand

open Text

/-- The options of the command. -/
inductive Flag where
  | help
  | version
  | verbose
  | compiler
  | units
  | dependences
  | reductions
  deriving DecidableEq, Repr, Inhabited

def names : List (String × Flag) :=
  [("-h", .help), ("--help", .help), ("-V", .version), ("--version", .version), ("-v", .verbose),
    ("--verbose", .verbose), ("--clang", .compiler), ("--CUGeneration", .units), ("--cugeneration", .units),
    ("--DPInstrumentation", .dependences), ("--dpinstrumentation", .dependences),
    ("--DPReduction", .reductions), ("--dpreduction", .reductions)]

inductive Argument where
  | known (name : String) (flag : Flag) (value : Option String)
  | other (text : String)
  | plain (text : String)
  | divider
  deriving DecidableEq, Repr, Inhabited

/-- The end of the command when its arguments do not fit. -/
def misused {α : Type} : Result α := .error (.exitCode (some 2))

def meant (arg : String) : List Argument :=
  if begins "--" arg then
    let (start, value) := cut "=" arg
    (names.filter fun n => begins start n.1).map fun n => .known n.1 n.2 value
  else
    names.filterMap fun n =>
      if n.1 == take 2 arg then some (.known n.1 n.2 (some (drop 2 arg)))
      else if begins arg n.1 then some (.known n.1 n.2 none)
      else none

def isNegative (arg : String) : Bool :=
  match arg.toList with
  | '-' :: cs =>
    let digits (cs : List Char) : Bool := !cs.isEmpty && cs.all fun c => (digit? c).isSome
    let (whole, behind) := cs.span fun c => (digit? c).isSome
    digits cs || (whole.all fun c => (digit? c).isSome) && behind.headD 'x' == '.' && digits (behind.drop 1)
  | _ => false

def sort (arg : String) : Result Argument :=
  let (start, value) := cut "=" arg
  match names.lookup arg, names.lookup start with
  | some flag, _ => .ok (.known arg flag none)
  | none, some flag => .ok (.known start flag value)
  | none, none =>
    if !begins "-" arg || arg.length ≤ 1 then .ok (.plain arg)
    else match meant arg with
      | [a] => .ok a
      | [] => .ok (if isNegative arg || has " " arg then .plain arg else .other arg)
      | _ => misused

def sortAll : List String → Result (List Argument)
  | [] => .ok []
  | "--" :: rest => .ok (.divider :: rest.map .plain)
  | arg :: rest => do return (← sort arg) :: (← sortAll rest)

/-- What the command is asked to do. -/
structure Request where
  compiler : Option String := none
  flags : List Flag := []
  rest : List String := []
  deriving DecidableEq, Repr, Inhabited

namespace Request

def passes : List Flag := [.units, .dependences, .reductions]

def take (r : Request) (flag : Flag) : Result Request :=
  if flag == .help || flag == .version then .error (.exitCode (some 0))
  else if passes.contains flag && r.flags.any fun f => passes.contains f && f != flag then misused
  else .ok { r with flags := addNew r.flags flag }

/-- The options of a short form that is written together with others. -/
def joinedFlags (flag : Flag) : List Char → Result (List Flag)
  | [] => .ok [flag]
  | c :: cs =>
    match names.lookup (String.ofList ['-', c]) with
    | some next => do return flag :: (← joinedFlags next cs)
    | none => misused

def takeAll (r : Request) : List Argument → Result Request
  | [] => .ok r
  | .plain a :: rest => takeAll { r with rest := r.rest ++ [a] } rest
  | .other a :: rest => takeAll { r with rest := r.rest ++ [a] } rest
  | .divider :: rest => takeAll { r with rest := r.rest ++ ["--"] } rest
  | .known _ .compiler (some value) :: rest => takeAll { r with compiler := some value } rest
  | .known _ .compiler none :: .plain value :: rest => takeAll { r with compiler := some value } rest
  | .known _ .compiler none :: _ => misused
  | .known _ flag none :: rest => do takeAll (← r.take flag) rest
  | .known name flag (some value) :: rest => do
    if begins "--" name || value == "" then misused
    let flags ← joinedFlags flag value.toList
    takeAll (← flags.foldlM take r) rest

def ofArguments (args : List String) : Result Request := do takeAll {} (← sortAll args)

def wrapper (r : Request) (install : Option String) : Result CompilerWrapper :=
  match r.compiler with
  | none | some "" =>
    .error (.exitText "clang++ executable not found in PATH. Specify --clang PATH/TO/CLANG++.")
  | some compiler => .ok {
      makesUnits := r.flags.contains .units, recordsDependences := r.flags.contains .dependences
      recordsReductions := r.flags.contains .reductions, compiler, install }

end Request

def run (install : Option String) (args : List String) : Filing Unit := do
  let r ← Request.ofArguments args
  let code ← (← r.wrapper install).invoke r.rest
  if code != 0 then throw (.exitCode (some code))

end ParallelPatterns.CompileCommand
