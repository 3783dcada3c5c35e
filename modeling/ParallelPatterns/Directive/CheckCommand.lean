import ParallelPatterns.Files
import ParallelPatterns.Text.Integer

/-!
# Commands that check a source

A changed source is written next to the file it belongs to and a command is run to check it. The
words of a command are divided by blanks outside of quotation marks; a word that assigns an
environment variable is no part of the command. The programs are `true`, `false` and `test`.
-/

namespace ParallelPatterns

namespace Command

def finish (word : List Char) (words : List (List Char)) : List (List Char) :=
  if word.isEmpty then words else word.reverse :: words

/-- The words of a command, given the characters of the word that is being read in reverse. Quoted
text belongs to its word together with the quotation marks; a quotation mark that is not closed
divides words. -/
def wordsFrom (word : List Char) (cs : List Char) : List (List Char) :=
  match cs with
  | [] => finish word []
  | c :: rest =>
    if c = '"' ∨ c = '\'' then
      match h : rest.dropWhile (· ≠ c) with
      | [] => finish word (wordsFrom [] rest)
      | _ :: behind =>
        have : behind.length < rest.length := by
          have := (List.dropWhile_suffix (· ≠ c) (l := rest)).length_le
          rw [h] at this
          exact Nat.lt_of_succ_le this
        wordsFrom ([c] ++ (rest.takeWhile (· ≠ c)).reverse ++ c :: word) behind
    else if Text.isBlank c then finish word (wordsFrom [] rest)
    else wordsFrom (c :: word) rest
termination_by cs.length
decreasing_by all_goals simp <;> omega

def words (s : String) : List String := (wordsFrom [] s.toList).map String.ofList

def isAssignment (word : String) : Bool := Text.has "=" word && !Text.begins "-" word

def assignedName (word : String) : String := (Text.cut "=" word).1

def arguments (s : String) : Result (List String) :=
  let (assignments, others) := (words s).partition isAssignment
  if assignments.any fun w => assignedName w == "" then .error .namelessVariable else .ok others

def unaryTest (files : Files) (op word : String) : Option Bool :=
  match op with
  | "-n" => some (word != "")
  | "-z" => some (word == "")
  | "-f" => some (files.isFile word)
  | "-d" => some (files.isDirectory word)
  | "-e" => some (files.present word)
  | "-r" => some (files.present word)
  | "-w" => some (files.present word)
  | "-x" => some (files.isDirectory word)
  | "-s" => some (match files.raw? word with
    | some s => s != ""
    | none => files.isDirectory word)
  | "!" => some (word == "")
  | _ => none

/-- The answer of a comparison of two words, or nothing for an unknown one or for words that are no
numbers. -/
def binaryTest (op a b : String) : Option Bool := do
  match op with
  | "=" => some (a == b)
  | "==" => some (a == b)
  | "!=" => some (a != b)
  | "-a" => some (a != "" && b != "")
  | "-o" => some (a != "" || b != "")
  | _ =>
    let x ← Text.integer? a
    let y ← Text.integer? b
    match op with
    | "-eq" => some (x == y)
    | "-ne" => some (x != y)
    | "-lt" => some (x < y)
    | "-le" => some (x ≤ y)
    | "-gt" => some (x > y)
    | "-ge" => some (x ≥ y)
    | _ => none

/-- The answer of a condition, or nothing for an ill-formed one. -/
def condition (files : Files) : List String → Option Bool
  | [] => some false
  | [a] => some (a != "")
  | [op, a] => unaryTest files op a
  | [a, op, b] =>
    match binaryTest op a b with
    | some r => some r
    | none => if a == "!" then (unaryTest files op b).map (!·) else none
  | ["!", a, op, b] => (binaryTest op a b).map (!·)
  | _ => none

/-- Does a program end well? A program that does not exist cannot be run. -/
def run (files : Files) : List String → Result Bool
  | [] => .error .outOfRange
  | "true" :: _ => .ok true
  | "false" :: _ => .ok false
  | "test" :: args => .ok ((condition files args).getD false)
  | _ => .error .noSuchFile

end Command

/-- Where the changed source of a file is written for its check. -/
def checkedPath (path : String) : String :=
  path ++ (if Text.ends ".c" path then ".discopop_tmp.c" else ".discopop_tmp.cpp")

/-- Does the command accept the changed source of a file? Without a command the compiler would be
asked, and there is none. -/
def acceptsSource (files : Files) (command : Option String) (path source : String) : Result Bool := do
  let files ← files.write (checkedPath path) source
  Command.run files (← Command.arguments (← command.getDM (throw .noSuchFile)))

end ParallelPatterns
