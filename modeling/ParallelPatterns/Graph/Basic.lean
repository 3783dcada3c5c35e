import ParallelPatterns.Graph.Node

/-!
# The program graph

Nodes in the order in which they came in, and links. A link joins an ordered pair of nodes and holds
the edges between them; links stand in the order in which their pairs were first joined, so that the
edges out of a node (`outEdges`) and into a node (`inEdges`) are filters of one list.
-/

namespace ParallelPatterns

/-- The edges between an ordered pair of nodes. -/
structure Link where
  source : NodeId
  target : NodeId
  edges : List (Nat × Dependence)
  deriving Repr, Inhabited

namespace Link

variable (l : Link)

def toEdges : List Edge := l.edges.map fun e => ⟨l.source, l.target, e.1, e.2⟩

def joins (s t : NodeId) : Bool := l.source == s && l.target == t

def keys : List Nat := l.edges.map (·.1)

def freeKey (keys : List Nat) : Nat → Nat → Nat
  | 0, k => k
  | fuel + 1, k => if keys.contains k then freeKey keys fuel (k + 1) else k

def nextKey (keys : List Nat) : Nat := freeKey keys (keys.length + 1) keys.length

def add (d : Dependence) : Link := { l with edges := l.edges ++ [(nextKey l.keys, d)] }

end Link

/-- A reduction found by the instrumented run: the loop, the variable, the line of the statement,
and what combines the values. -/
structure ReductionRecord where
  loopLine : LineId
  name : String
  reductionLine : LineId
  operation : String
  deriving DecidableEq, Repr, Inhabited

structure Graph where
  nodes : Table NodeId Node := ∅
  links : List Link := []
  reductions : Option (List ReductionRecord) := some []
  main : Option NodeId := none
  operators : Table Nat String := ∅
  /-- The next free identifier of a write; no two writes of a program share one. -/
  nextWrite : Int := 0
  deriving Inhabited

namespace Graph

variable (g : Graph)

def allNodes : List Node := g.nodes.values

def nodesOf (kinds : List NodeKind) : List Node :=
  g.allNodes.filter fun n => kinds.contains n.kind

def units : List Node := g.nodesOf [.unit]

def loops : List Node := g.nodesOf [.loop]

def functions : List Node := g.nodesOf [.function]

variable (id : NodeId)

def node? : Option Node := g.nodes.get? id

def node : Result Node :=
  match g.node? id with
  | some n => .ok n
  | none => .error .unknownKey

def outEdges : List Edge :=
  (g.links.filter fun l => l.source == id).flatMap Link.toEdges

def inEdges : List Edge :=
  (g.links.filter fun l => l.target == id).flatMap Link.toEdges

def outEdgesOf (kinds : List EdgeKind) : List Edge :=
  (g.outEdges id).filter fun e => kinds.contains e.dep.edge

def inEdgesOf (kinds : List EdgeKind) : List Edge :=
  (g.inEdges id).filter fun e => kinds.contains e.dep.edge

def outData : List Edge := g.outEdgesOf id [.data]

def inData : List Edge := g.inEdgesOf id [.data]

def outDataOf (k : DependenceKind) : List Edge :=
  (g.outData id).filter fun e => e.dep.isKind k

def inDataOf (k : DependenceKind) : List Edge :=
  (g.inData id).filter fun e => e.dep.isKind k

def edges : List Edge := g.nodes.keys.flatMap g.outEdges

def linkedEdges : List Edge := g.links.flatMap Link.toEdges

def targets (es : List Edge) : List Node := es.filterMap fun e => g.node? e.target

def sources (es : List Edge) : List Node := es.filterMap fun e => g.node? e.source

def successors : List Node := g.targets (g.outEdgesOf id [.successor])

def children : List Node := g.targets (g.outEdgesOf id [.child])

def childrenOrCalled : List Node :=
  g.targets (g.outEdgesOf id [.child, .call])

def parentIds : List NodeId := (g.inEdgesOf id [.child]).map (·.source)

def addToLinks (s t : NodeId) (d : Dependence) : List Link → List Link
  | [] => [⟨s, t, [(0, d)]⟩]
  | l :: ls => if l.joins s t then l.add d :: ls else l :: addToLinks s t d ls

def addEdge (s t : NodeId) (d : Dependence) : Graph :=
  { g with links := addToLinks s t d g.links }

def addArcs (as : List Arc) : Graph := as.foldl (fun g a => g.addEdge a.source a.target a.dep) g

def hasLink (s t : NodeId) : Bool := g.links.any fun l => l.joins s t

/-- Removes the edges that a test picks; a pair without edges is no longer linked. -/
def removeEdges (p : Edge → Bool) : Graph :=
  { g with
    links := (g.links.map fun l =>
        { l with edges := l.edges.filter fun e => !p ⟨l.source, l.target, e.1, e.2⟩ }).filter
      fun l => !l.edges.isEmpty }

/-- Removes the edge between two nodes that came in last; a pair without edges is no longer
linked. -/
def removeLast (s t : NodeId) : Graph :=
  { g with
    links := (g.links.map fun l => if l.joins s t then { l with edges := l.edges.dropLast } else l).filter
      fun l => !l.edges.isEmpty }

def removeNode : Graph :=
  { g with
    nodes := g.nodes.erase id
    links := g.links.filter fun l => !(l.source == id) && !(l.target == id) }

def restrictTo (ids : List NodeId) : Graph :=
  { g with
    nodes := ⟨g.nodes.entries.filter fun e => ids.contains e.1⟩
    links := g.links.filter fun l => ids.contains l.source && ids.contains l.target }

def successorView : Graph :=
  (g.linkedEdges.filter fun e => e.dep.edge != .successor).foldl (fun g e => g.removeLast e.source e.target) g

def modifyNode (f : Node → Node) : Graph :=
  { g with nodes := g.nodes.modify id f }

def operator? (v : Variable) : Option String := v.place.bind g.operators.get?

def setOperator (v : Variable) (op : String) : Graph :=
  match v.place with
  | some p => { g with operators := g.operators.insert p op }
  | none => g

def clearOperator (v : Variable) : Graph :=
  match v.place with
  | some p => { g with operators := g.operators.erase p }
  | none => g

theorem mem_outEdges_iff {g : Graph} {id : NodeId} {e : Edge} :
    e ∈ g.outEdges id ↔ e.source = id ∧ e ∈ g.links.flatMap Link.toEdges := by
  simp only [outEdges, List.mem_flatMap, List.mem_filter, Link.toEdges, List.mem_map]
  constructor
  · rintro ⟨l, ⟨hl, hsource⟩, p, hp, rfl⟩
    exact ⟨LawfulBEq.eq_of_beq hsource, l, hl, p, hp, rfl⟩
  · rintro ⟨rfl, l, hl, p, hp, rfl⟩
    exact ⟨l, ⟨hl, by simp⟩, p, hp, rfl⟩

theorem mem_inEdges_iff {g : Graph} {id : NodeId} {e : Edge} :
    e ∈ g.inEdges id ↔ e.target = id ∧ e ∈ g.links.flatMap Link.toEdges := by
  simp only [inEdges, List.mem_flatMap, List.mem_filter, Link.toEdges, List.mem_map]
  constructor
  · rintro ⟨l, ⟨hl, htarget⟩, p, hp, rfl⟩
    exact ⟨LawfulBEq.eq_of_beq htarget, l, hl, p, hp, rfl⟩
  · rintro ⟨rfl, l, hl, p, hp, rfl⟩
    exact ⟨l, ⟨hl, by simp⟩, p, hp, rfl⟩

end Graph

end ParallelPatterns
