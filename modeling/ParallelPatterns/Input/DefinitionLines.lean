import ParallelPatterns.Input.UnitFile

/-!
# Where variables are defined

The lines on which the variables of the units of a program are defined, by name.
-/

namespace ParallelPatterns

abbrev DefinitionLines := Table String (List (Option String))

namespace DefinitionLines

def addVariables (t : DefinitionLines) : List Markup → DefinitionLines
  | [] => t
  | m :: ms =>
    match m.text? with
    | none => t
    | some name =>
      addVariables (t.update (Text.replace ".addr" "" name) [] fun lines =>
        addNew lines (m.attribute? "defLine")) ms

def addGroups (t : DefinitionLines) (m : Markup) (group tag : String) : Result DefinitionLines :=
  match m.childrenOf group with
  | [] => .error .missingProperty
  | gs => .ok (gs.foldl (fun t g => addVariables t (g.childrenOf tag)) t)

def parse (text : String) : Result DefinitionLines := do
  let nodes := (← Markup.parse (UnitFile.document text)).childrenOf "Node"
  if nodes.isEmpty then throw .missingProperty
  (nodes.filter fun m => m.attribute? "type" == some "0").foldlM (fun t m => do
    addGroups (← addGroups t m "globalVariables" "global") m "localVariables" "local") ∅

end DefinitionLines

end ParallelPatterns
