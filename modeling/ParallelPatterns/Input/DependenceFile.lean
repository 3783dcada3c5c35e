import ParallelPatterns.Graph.Node

/-!
# The recorded dependences

Each line of the dependence files is a list of words: the line of the later access, a tag, and for
the tag `NOM` pairs of a type and a source `line|variable(region)`. The tag `BGN` with the word
`loop` tells how often a loop ran.
-/

namespace ParallelPatterns

structure DependenceRecord where
  sink : String
  source : String
  type : String
  var : String
  region : String
  deriving DecidableEq, Repr, Inhabited

namespace DependenceRecord

def variableAndRegion (s : String) : String × String :=
  match Text.split "(" s with
  | name :: region :: _ => (name, Text.dropEnd 1 region)
  | _ => (s, "")

def ofPair (sink type source : String) : DependenceRecord :=
  match Text.split "|" source with
  | line :: var :: _ =>
    let (name, region) := variableAndRegion var
    ⟨sink, line, type, name, region⟩
  | _ => ⟨sink, source, type, "", ""⟩

/-- Groups words into pairs; a last word alone is dropped. -/
def pairs : List String → List (String × String)
  | a :: b :: r => (a, b) :: pairs r
  | _ => []

end DependenceRecord

structure DependenceFile where
  dependences : List DependenceRecord := []
  loops : List LoopCount := []
  deriving Inhabited

namespace DependenceFile

variable (ws : List String)

def word (i : Nat) : Result String :=
  ws[i]?.getDM (.error .outOfRange)

def numberAt (i : Nat) : Result Int := do
  let w ← word ws i
  number w

def loopCount : Result LoopCount := do
  let line ← word ws 0
  let total ← numberAt ws 3
  let entries ← numberAt ws 4
  let average ← numberAt ws 5
  let maximum ← numberAt ws 6
  return { line, total, entries, average, maximum }

def addLine (f : DependenceFile) (line : String) : Result DependenceFile := do
  let ws := Text.words line
  let tag ← word ws 1
  if tag == "BGN" then
    let what ← word ws 2
    if what == "loop" then
      let l ← loopCount ws
      return { f with loops := f.loops ++ [l] }
    return f
  if ws.length < 4 || tag != "NOM" then return f
  let sink ← word ws 0
  let records := (DependenceRecord.pairs (ws.drop 2)).map fun p => DependenceRecord.ofPair sink p.1 p.2
  return { f with dependences := f.dependences ++ records }

/-- Reads the lines of the recorded dependences, followed by those of the static ones. -/
def parse (lines : List String) : Result DependenceFile := lines.foldlM addLine {}

def loopTable (f : DependenceFile) : Table LineId LoopCount :=
  f.loops.foldl (fun t l => t.insert l.line l) ∅

end DependenceFile

end ParallelPatterns
