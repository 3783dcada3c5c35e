import ParallelPatterns.Graph.Line
import ParallelPatterns.Json.Basic

/-!
# Constructs that offload a loop

A construct is a directive with its clauses and the line where it belongs. A clause is written from
a pattern in which `args` stands for the arguments.
-/

namespace ParallelPatterns

/-- Where a construct stands with respect to its line. -/
inductive ConstructPlace where
  | before
  | after
  deriving DecidableEq, Repr, Inhabited

def ConstructPlace.number : ConstructPlace → Int
  | before => 0
  | after => 1

structure Construct where
  name : String
  line : LineId
  clauses : List String
  place : ConstructPlace := .before
  deriving DecidableEq, Repr, Inhabited

namespace Construct

def attributes (c : Construct) : List (String × Json) :=
  [("name", .str c.name), ("line", .str c.line), ("clauses", .strings c.clauses),
    ("positioning", .int c.place.number)]

def text (c : Construct) : String :=
  Text.fields [("\tname", c.name), ("\tline", c.line),
    ("\tclauses", Text.listLiteral (c.clauses.map Text.literal)),
    ("\tpositioning", toString c.place.number)] ++ "\n"

def record (name : String) (line : Int) (clauses : List String) : String :=
  "\x7b\"name\":\"" ++ name ++ "\",\"line\":" ++ toString line ++ ",\"clauses\":[" ++
    ",".intercalate clauses ++ "]\x7d"

end Construct

namespace Clause

def write (pattern : String) (args : List String) : Result String :=
  if args.isEmpty then .ok pattern
  else if Text.has "args" pattern then .ok (Text.replace "args" (",".intercalate args) pattern)
  else .error (.unsupportedClause pattern (Text.listLiteral (args.map Text.literal)))

def record (name : String) (args : List String) : String :=
  "\x7b\"name\":\"" ++ name ++ "\",\"args\":[" ++
    ",".intercalate (args.map fun a => "\"" ++ a ++ "\"") ++ "]\x7d"

end Clause

end ParallelPatterns
