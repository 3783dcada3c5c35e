import ParallelPatterns.Graph.Basic

/-!
# Analyses that change the graph

An analysis reads the program graph, may note results in it, and may fail. What it noted before a
failure stays.
-/

namespace ParallelPatterns

abbrev Analysis := ExceptT Failure (StateM Graph)

namespace Analysis

def graph : Analysis Graph := get

def lift {α : Type} (r : Result α) : Analysis α :=
  match r with
  | .ok a => pure a
  | .error f => throw f

def query {α : Type} (f : Graph → Result α) : Analysis α := do lift (f (← graph))

def modifyNode (id : NodeId) (f : Node → Node) : Analysis Unit := modify fun g => g.modifyNode id f

def runOn {α : Type} (a : Analysis α) (g : Graph) : Result α × Graph := (ExceptT.run a).run g

end Analysis

end ParallelPatterns
