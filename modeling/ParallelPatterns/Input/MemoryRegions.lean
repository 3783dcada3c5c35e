import ParallelPatterns.Files
import ParallelPatterns.Graph.Line

/-!
# The sizes of memory regions

Every line of the memory region file names a region, the line that allocates it, and its size in
bytes, separated by single blanks.
-/

namespace ParallelPatterns.MemoryRegions

def addLine (t : Table Region Int) (line : String) : Result (Table Region Int) := do
  let fields := Text.split " " (Text.replace "\n" "" line)
  match fields with
  | region :: _ :: size :: _ => return t.insert region (← number size)
  | _ => .error .outOfRange

def parse (text : String) : Result (Table Region Int) := (Text.feedLines text).foldlM addLine ∅

def sizes (files : Files) (path : String) (regions : List Region) : Result (Table Region Int) := do
  if !files.present path then .error (.unknownFile path)
  else
    let known ← parse (← files.read path)
    return ⟨regions.filterMap fun r => (known.get? r).map fun s => (r, s)⟩

end ParallelPatterns.MemoryRegions
