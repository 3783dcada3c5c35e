import ParallelPatterns.Failure
import ParallelPatterns.Table

/-!
# Options of a command

A command has long options, of which some take a value. A long option may be shortened as long as
only one option begins that way; its value is joined to it by an equals sign or is the next
argument. The argument list fits the command if every argument is an option of it, no option is
given twice and those that are required are there.
-/

namespace ParallelPatterns

structure CommandOption where
  name : String
  letter : Option Char := none
  takesValue : Bool := true
  value : Option String := none
  isRequired : Bool := false
  deriving DecidableEq, Repr, Inhabited

structure CommandOptions where
  options : List CommandOption
  usage : String
  hasVersion : Bool := false
  deriving Inhabited

namespace CommandOptions

def help : CommandOption := { name := "--help", letter := some 'h', takesValue := false }

def version : String := "--version"

variable (c : CommandOptions)

def all : List CommandOption := c.options ++ [help]

def misused {α : Type} (c : CommandOptions) : Result α := .error (.exitText c.usage)

/-- An argument of a command that has been read: an option with its value, or another text. -/
inductive Argument where
  | option (name : String) (value : Option String)
  | text
  deriving DecidableEq, Repr, Inhabited

def meant (name : String) : List CommandOption :=
  match c.all.filter (·.name == name) with
  | [] => c.all.filter fun o => Text.begins name o.name
  | exact => exact

def readLetters (letters : List Char) : List Argument :=
  letters.map fun l =>
    match c.all.find? (·.letter == some l) with
    | some o => .option o.name none
    | none => .option (String.ofList ['-', l]) none

def readLong (arg : String) (rest : List String) : Result (Argument × List String) :=
  let (name, value) := Text.cut "=" arg
  match c.meant name with
  | [] => .ok (.option name value, rest)
  | [o] =>
    match o.takesValue, value, rest with
    | false, none, _ => .ok (.option o.name none, rest)
    | false, some _, _ => c.misused
    | true, some v, _ => .ok (.option o.name (some v), rest)
    | true, none, [] => c.misused
    | true, none, v :: rest => if v == "--" then c.misused else .ok (.option o.name (some v), rest)
  | _ => c.misused

def readArguments (c : CommandOptions) : Nat → List String → Result (List Argument)
  | 0, _ => .ok []
  | _, [] => .ok []
  | n + 1, arg :: rest =>
    if arg == "--" then .ok ((arg :: rest).map fun _ => .text)
    else if Text.begins "--" arg then do
      let (a, rest) ← c.readLong arg rest
      return a :: (← c.readArguments n rest)
    else if Text.begins "-" arg && arg != "-" then do
      return c.readLetters (arg.toList.drop 1) ++ (← c.readArguments n rest)
    else do return .text :: (← c.readArguments n rest)

def fits (arguments : List Argument) : Bool :=
  let names := arguments.map fun
    | .option name _ => name
    | .text => ""
  names.all (fun n => c.options.any (·.name == n)) && distinct names == names &&
    c.options.all fun o => !o.isRequired || names.contains o.name

/-- The values of the options of a command. An option without a value is `"True"` when it is given
and `"False"` otherwise; a missing value is `"None"`. -/
def valueOf (arguments : List Argument) (o : CommandOption) : String :=
  let given := arguments.findSome? fun
    | .option name value => if name == o.name then some value else none
    | .text => none
  if o.takesValue then ((given.join <|> o.value).getD "None") else if given.isSome then "True" else "False"

def read (args : List String) : Result (Table String String) := do
  let arguments ← c.readArguments args.length args
  let asks (name : String) := arguments.any fun
    | .option n _ => n == name
    | .text => false
  if asks help.name || (c.hasVersion && asks version) then throw (.exitCode none)
  if !c.fits arguments then c.misused
  return .ofList (c.options.map fun o => (o.name, valueOf arguments o))

end CommandOptions

end ParallelPatterns
