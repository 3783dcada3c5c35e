import ParallelPatterns.Graph.Basic

/-!
# Static and dynamic memory regions

A region whose name begins with `S` was found without running the program. Two dependences out of
one unit on the same variable concern the same memory, so their regions belong together; every
static dependence is copied to each dynamic region that belongs to its own.
-/

namespace ParallelPatterns.Graph

/-- Is the region known without running the program? -/
def isStaticRegion (r : Region) : Bool := Text.begins "S" r

def relate (t : Table Region (List Region)) (a b : Region) : Table Region (List Region) :=
  (t.update a [] (addNew · b)).update b [] (addNew · a)

def relateEdges (a : Edge) (t : Table Region (List Region)) (b : Edge) : Table Region (List Region) :=
  match a.dep.region, b.dep.region with
  | some r, some s => if !a.same b && a.dep.var == b.dep.var && r != s then relate t r s else t
  | _, _ => t

def relateAll (es : List Edge) (t : Table Region (List Region)) : Table Region (List Region) :=
  es.foldl (fun t a => es.foldl (relateEdges a) t) t

def regionMapping (g : Graph) : Table Region (List Region) :=
  g.units.foldl (fun t n => relateAll (g.outData n.id) t) ∅

variable (mapping : Table Region (List Region))

def dynamicRegions (e : Edge) : List Region :=
  match e.dep.region with
  | some r => if isStaticRegion r then (mapping.getD r []).filter fun m => !isStaticRegion m else []
  | none => []

def dynamicCopies (e : Edge) : List Edge :=
  (dynamicRegions mapping e).map fun m => { e with dep := { e.dep with region := some m } }

def copyStatic (g : Graph) (unit : NodeId) : Graph :=
  ((g.outData unit).flatMap (dynamicCopies mapping)).foldl (fun g e => g.addEdge e.source e.target e.dep) g

/-- Copies the static dependences to the dynamic regions that belong to theirs, unit by unit. -/
def mapStaticRegions (g : Graph) : Graph := (g.units.map (·.id)).foldl (copyStatic g.regionMapping) g

end ParallelPatterns.Graph
