import ParallelPatterns.Failure

/-!
# Dependences between calls of one function

A report of an outer program on the dependences between several calls of a function, by type; each
names the line of the call, the variable, and possibly the function.
-/

namespace ParallelPatterns

structure CallDependence where
  function : Option String
  line : String
  var : String
  deriving DecidableEq, Repr, Inhabited

structure CallDependences where
  flow : List CallDependence := []
  anti : List CallDependence := []
  output : List CallDependence := []
  deriving Inhabited

namespace CallDependences

def ofWords (ws : List String) : Result CallDependence := do
  let word (i : Nat) : Result String :=
    ws[i]?.getDM (.error .outOfRange)
  match ← word 2 with
  | "line:" => return { function := none, line := Text.replace "," "" (← word 3), var := ← word 5 }
  | "function:" =>
    return { function := some (← word 3), line := Text.replace "," "" (← word 5), var := ← word 7 }
  | other => throw (.unknownTarget other)

def addLine (c : CallDependences) (line : String) : Result CallDependences := do
  let ws := Text.split " " (Text.replace "\n" "" line)
  let d ← ofWords ws
  match ws.headD "" with
  | "RAW" => return { c with flow := c.flow ++ [d] }
  | "WAR" => return { c with anti := c.anti ++ [d] }
  | "WAW" => return { c with output := c.output ++ [d] }
  | _ => throw .unknownKey

def parse (text : String) : Result CallDependences := (Text.feedLines text).foldlM addLine {}

end CallDependences

end ParallelPatterns
