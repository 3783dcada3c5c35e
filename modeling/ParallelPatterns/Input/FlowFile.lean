import ParallelPatterns.Failure
import ParallelPatterns.Table

/-!
# Flows between lines

The flow dependences that the lines of a dependence file list: for each line, the lines it reads
from with the variables read.
-/

namespace ParallelPatterns

/-- For each line the lines and variables that it reads from. -/
abbrev Flows := Table String (List (String × String))

namespace Flows

def isType (w : String) : Bool := w == "RAW" || w == "WAR" || w == "WAW" || w == "INIT"

/-- Groups words into entries, each beginning at a type; empty words in front of an entry are
dropped. -/
def entriesGo : List String → List String → List (List String)
  | acc, [] => if acc.isEmpty then [] else [acc]
  | acc, w :: ws =>
    if isType w then (if acc.isEmpty then [] else [acc]) ++ entriesGo [w] ws
    else if acc.isEmpty && w == "" then entriesGo [] ws
    else entriesGo (acc ++ [w]) ws

def flow? (entry : List String) : Result (Option (String × String)) :=
  match entry with
  | "RAW" :: source :: _ =>
    match Text.split "|" source with
    | line :: var :: _ => .ok (some (line, Text.replace ".addr" "" var))
    | _ => .error .outOfRange
  | ["RAW"] => .error .outOfRange
  | _ => .ok none

def addLine (t : Flows) (line : String) : Result Flows :=
  match Text.split " NOM " (Text.replace "\n" "" line) with
  | sink :: listed :: _ => do
    let found ← (entriesGo [] (Text.split " " listed)).mapM flow?
    return t.update sink [] (· ++ found.filterMap id)
  | _ => .ok t

def parse (text : String) : Result Flows := (Text.feedLines text).foldlM addLine ∅

end Flows

end ParallelPatterns
