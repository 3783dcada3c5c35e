import ParallelPatterns.Graph.Analysis

/-!
# Suggestions of tasks

A suggestion proposes to run a unit as a task, to wait for tasks, to replace a loop of tasks by a
taskloop, to open a parallel region, or to let a unit join the task before it. Suggestions are
numbered; a plan holds them together with the program graph, and lists the numbers of the current
ones.

The lists of variables of a suggestion are numbered, too: a suggestion and its copy hold the same
lists until one of them gets a list of its own, and adding to a list adds to it wherever it is held.
The groups of a suggestion are such a list, which the plan keeps.
-/

namespace ParallelPatterns

inductive TaskKind where
  | task
  | taskwait
  | taskloop
  | dummy
  deriving DecidableEq, Repr, Inhabited

namespace TaskKind

def name : TaskKind → String
  | task => "TASK"
  | taskwait => "TASKWAIT"
  | taskloop => "TASKLOOP"
  | dummy => "DUMMY"

def word : TaskKind → String
  | task => "task"
  | taskwait => "taskwait"
  | taskloop => "taskloop"
  | dummy => "dummy"

def all : List TaskKind := [task, taskwait, taskloop, dummy]

def ofName? (s : String) : Option TaskKind := all.find? fun k => k.name == s

end TaskKind

/-- A list of names that suggestions may hold in common: lists with the same number are one list. -/
structure CommonList where
  number : Nat
  items : List String
  deriving Repr, Inhabited

def CommonList.change (number : Nat) (f : List String → List String) (l : CommonList) : CommonList :=
  if l.number == number then { l with items := f l.items } else l

inductive DirectiveLine where
  | written (s : String)
  | computed (n : Int)
  deriving DecidableEq, Repr

namespace DirectiveLine

def text : DirectiveLine → String
  | written s => s
  | computed n => toString n

def written? : DirectiveLine → Result String
  | written s => .ok s
  | computed _ => .error .wrongSort

def toInt : DirectiveLine → Result Int
  | written s => number s
  | computed n => .ok n

end DirectiveLine

instance : Inhabited DirectiveLine := ⟨.written ""⟩

def lineOf (position : String) : String := ((Text.cut ":" position).2).getD position

structure TaskSuggestion where
  node : NodeId
  /-- Where the node began and ended when the suggestion was made. -/
  first : LineId
  last : LineId
  kind : TaskKind
  pragma : List String
  line : DirectiveLine
  regionStart : String
  regionEnd : Option String := none
  firstPrivate : CommonList
  privates : CommonList
  shared : CommonList
  dependIn : CommonList
  dependOut : CommonList
  dependInOut : CommonList
  critical : CommonList
  atomic : CommonList
  group : Nat
  deriving Inhabited

/-- The lists of names of a suggestion. -/
inductive TaskClause where
  | firstPrivate
  | privates
  | shared
  | dependIn
  | dependOut
  | dependInOut
  | critical
  | atomic
  deriving DecidableEq, Repr

namespace TaskClause

def all : List TaskClause :=
  [firstPrivate, privates, shared, dependIn, dependOut, dependInOut, critical, atomic]

def name : TaskClause → String
  | firstPrivate => "first_private"
  | privates => "private"
  | shared => "shared"
  | dependIn => "in_dep"
  | dependOut => "out_dep"
  | dependInOut => "in_out_dep"
  | critical => "critical_sections"
  | atomic => "atomic_sections"

end TaskClause

namespace TaskSuggestion

variable (t : TaskSuggestion)

def get : TaskClause → CommonList
  | .firstPrivate => t.firstPrivate
  | .privates => t.privates
  | .shared => t.shared
  | .dependIn => t.dependIn
  | .dependOut => t.dependOut
  | .dependInOut => t.dependInOut
  | .critical => t.critical
  | .atomic => t.atomic

def names (c : TaskClause) : List String := (t.get c).items

def put (l : CommonList) : TaskClause → TaskSuggestion
  | .firstPrivate => { t with firstPrivate := l }
  | .privates => { t with privates := l }
  | .shared => { t with shared := l }
  | .dependIn => { t with dependIn := l }
  | .dependOut => { t with dependOut := l }
  | .dependInOut => { t with dependInOut := l }
  | .critical => { t with critical := l }
  | .atomic => { t with atomic := l }

def changeList (number : Nat) (f : List String → List String) (t : TaskSuggestion) : TaskSuggestion :=
  TaskClause.all.foldl (fun t c => t.put ((t.get c).change number f) c) t

def text (groups : List Int) : String :=
  Text.fields ([("Task parallelism at CU", t.node), ("CU Start line", t.first), ("CU End line", t.last),
    ("pragma at line", t.line.text), ("pragma region start line", t.regionStart),
    ("pragma region end line", t.regionEnd.getD "None"),
    ("pragma", "\"#pragma omp " ++ " ".intercalate t.pragma ++ "\"")] ++
    TaskClause.all.map (fun c => (c.name, " ".intercalate (t.names c))) ++
    [("task_group", " ".intercalate (groups.map toString))]) ++ "\n"

end TaskSuggestion

structure RegionSuggestion where
  node : NodeId
  first : LineId
  last : LineId
  regionStart : Option String
  regionEnd : Option String
  deriving Inhabited

namespace RegionSuggestion

def pragma : String := "#pragma omp parallel\n\t#pragma omp single"

def text (r : RegionSuggestion) : String :=
  Text.fields [("Task Parallel Region at CU", r.node), ("CU Start line", r.first), ("CU End line", r.last),
    ("pragma", "\n\t" ++ pragma), ("Parallel Region Start line", r.regionStart.getD "None")] ++
    "\nParallel Region End line " ++ r.regionEnd.getD "None" ++ "\n"

end RegionSuggestion

structure OmittableSuggestion where
  node : NodeId
  first : LineId
  last : LineId
  partner : NodeId
  dependIn : List String := []
  dependOut : List String := []
  dependInOut : List String := []
  deriving Inhabited

def OmittableSuggestion.text (o : OmittableSuggestion) : String :=
  Text.fields [("Omittable CU", o.node), ("CU Start line", o.first), ("CU End line", o.last),
    ("Combinable with", o.partner), ("in_dep", " ".intercalate o.dependIn),
    ("out_dep", " ".intercalate o.dependOut), ("in_out_dep", " ".intercalate o.dependInOut)] ++ "\n"

inductive Suggestion where
  | task (t : TaskSuggestion)
  | region (r : RegionSuggestion)
  | omittable (o : OmittableSuggestion)
  deriving Inhabited

namespace Suggestion

def task? : Suggestion → Option TaskSuggestion
  | task t => some t
  | _ => none

def mapTask (f : TaskSuggestion → TaskSuggestion) : Suggestion → Suggestion
  | task t => task (f t)
  | s => s

def kind? (s : Suggestion) : Option TaskKind := s.task?.map (·.kind)

def omittable? : Suggestion → Option OmittableSuggestion
  | omittable o => some o
  | _ => none

end Suggestion

/-- The program graph with the suggestions made so far. -/
structure Plan where
  graph : Graph
  known : Table Nat Suggestion := ∅
  current : List Nat := []
  groups : Table Nat (List Int) := ∅
  /-- The next free number for suggestions and lists. -/
  fresh : Nat := 0
  deriving Inhabited

abbrev Planning := ExceptT Failure (StateM Plan)

namespace Planning

variable {α : Type}

def lift (r : Result α) : Planning α :=
  match r with
  | .ok a => pure a
  | .error f => throw f

def graph : Planning Graph := do return (← get).graph

def query (f : Graph → Result α) : Planning α := do lift (f (← graph))

def modifyNode (id : NodeId) (f : Node → Node) : Planning Unit :=
  modify fun p => { p with graph := p.graph.modifyNode id f }

def analyse (a : Analysis α) : Planning α := do
  let (r, g) := a.runOn (← graph)
  modify fun p => { p with graph := g }
  lift r

def node (id : NodeId) : Planning Node := query fun g => g.node id

def newList (items : List String) : Planning CommonList := do
  let p ← get
  set { p with fresh := p.fresh + 1 }
  return ⟨p.fresh, items⟩

def newGroups (groups : List Int) : Planning Nat := do
  let p ← get
  set { p with fresh := p.fresh + 1, groups := p.groups.insert p.fresh groups }
  return p.fresh

def add (s : Suggestion) : Planning Nat := do
  let p ← get
  set { p with fresh := p.fresh + 1, known := p.known.insert p.fresh s }
  return p.fresh

variable (n : Nat)

def suggestion : Planning Suggestion := do return ((← get).known.getD n default)

def task : Planning TaskSuggestion := do return ((← suggestion n).task?).getD default

def currentSuggestions : Planning (List (Nat × Suggestion)) := do
  (← get).current.mapM fun n => do return (n, ← suggestion n)

def numbersOf (f : Suggestion → Bool) : Planning (List Nat) := do
  return ((← currentSuggestions).filter fun s => f s.2).map (·.1)

def tasksOf (k : TaskKind) : Planning (List Nat) := numbersOf fun s => s.kind? == some k

def setCurrent (ns : List Nat) : Planning Unit := modify fun p => { p with current := ns }

def modifySuggestion (f : Suggestion → Suggestion) : Planning Unit :=
  modify fun p => { p with known := p.known.modify n f }

def modifyTask (f : TaskSuggestion → TaskSuggestion) : Planning Unit :=
  modifySuggestion n (·.mapTask f)

def modifyTasks (f : TaskSuggestion → TaskSuggestion) : Planning Unit :=
  modify fun p => { p with known := p.known.map fun _ s => s.mapTask f }

def changeNames (c : TaskClause) (f : List String → List String) : Planning Unit := do
  let number := ((← task n).get c).number
  modifyTasks (TaskSuggestion.changeList number f)

def addName (c : TaskClause) (x : String) : Planning Unit := changeNames n c (· ++ [x])

def setNames (c : TaskClause) (names : List String) : Planning Unit := do
  let l ← newList names
  modifyTask n fun t => t.put l c

def groupsOf : Planning (List Int) := do return (← get).groups.getD (← task n).group []

def addGroup (id : Int) : Planning Unit := do
  let number := (← task n).group
  modify fun p => { p with groups := p.groups.modify number (· ++ [id]) }

def textOf : Planning String := do
  match ← suggestion n with
  | .task t => return t.text (← groupsOf n)
  | .region r => return r.text
  | .omittable o => return o.text

def newTask (n : Node) (kind : TaskKind) (pragma : List String) (line : String)
    (firstPrivate privates shared : List String) : Planning Nat := do
  add (.task {
    node := n.id, first := n.start, last := n.finish, kind, pragma, line := .written line
    regionStart := lineOf line, firstPrivate := ← newList firstPrivate, privates := ← newList privates
    shared := ← newList shared, dependIn := ← newList [], dependOut := ← newList []
    dependInOut := ← newList [], critical := ← newList [], atomic := ← newList [], group := ← newGroups [] })

def runOn (a : Planning α) (p : Plan) : Result α × Plan := (ExceptT.run a).run p

end Planning

end ParallelPatterns
