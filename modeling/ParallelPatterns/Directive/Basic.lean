/-!
# Directives for a source

A directive is a line to insert into a source: its text, the file and the lines it is meant for, and
where it stands relative to them. The directives that belong to it are its children.
-/

namespace ParallelPatterns

/-- Where a directive stands relative to the lines it is meant for. -/
inductive DirectivePosition where
  | beforeStart
  | afterStart
  | beforeEnd
  | afterEnd
  | unsupported (literal : String)
  deriving DecidableEq, Repr, Inhabited

namespace DirectivePosition

def named : List (String × DirectivePosition) :=
  [("BEFORE_START", beforeStart), ("AFTER_START", afterStart), ("BEFORE_END", beforeEnd), ("AFTER_END", afterEnd)]

def name (p : DirectivePosition) : String := ((named.find? fun e => e.2 == p).map (·.1)).getD ""

end DirectivePosition

structure Directive where
  text : String := ""
  file : Option Int := none
  first : Option Int := none
  last : Option Int := none
  position : DirectivePosition := .beforeStart
  children : List Directive := []
  deriving Inhabited

end ParallelPatterns
