import ParallelPatterns.Alias.Function
import ParallelPatterns.Input.Load
import ParallelPatterns.Markup.Writer
import ParallelPatterns.Pattern.DoAll
import ParallelPatterns.Task.CallDependence
import ParallelPatterns.Task.Combine
import ParallelPatterns.Task.Depend
import ParallelPatterns.Task.Groups
import ParallelPatterns.Task.LoopBody
import ParallelPatterns.Task.Roles
import ParallelPatterns.Task.SplitUnits

/-!
# Task parallelism of a program

The stages in which the tasks of a program are suggested: roles of nodes, first suggestions,
barriers, dependences, sharing of data, groups, and the order in which the suggestions are reported.
-/

namespace ParallelPatterns

/-- What the analysis of tasks reads besides the graph. -/
structure TaskInput where
  files : Files
  paths : ProgramPaths := {}
  calls : String := "data/CUInstResult.txt"
  demangler : Demangler := {}
  /-- What the listing program prints for a source file. -/
  statements : String → String := fun _ => ""

namespace TaskInput

variable (t : TaskInput)

def program : Result Program := Program.load t.files t.paths.mapping t.demangler

def flows : Result Flows := do Flows.parse (← t.files.read t.paths.dependences)

def callDependences : Result CallDependences := do
  CallDependences.parse (← t.files.read t.calls)

def definitionLines : Result DefinitionLines := do
  DefinitionLines.parse (← t.files.read t.paths.units)

def aliases : Result (Table String (List (String × String))) :=
  Alias.ofProgram t.files t.paths.mapping t.paths.units t.statements

end TaskInput

namespace Planning

def dependOnCalls (t : TaskInput) : Planning Unit := do
  let p ← lift t.program
  let flows ← lift t.flows
  let dependences ← lift t.callDependences
  let classes ← aliasClasses p
  let aliases ← lift t.aliases
  dependOnDifferent p classes flows
  dependOnSame p dependences aliases

/-- Gives the nodes their roles. The tree of tasks below the main function must be finite. -/
def prepareRoles : Planning Unit := do
  analyse detectAllRoles
  let g ← graph
  let id ← g.main.getDM (throw .missingProperty)
  let _ ← lift (do WorkTask.forest g (← g.node id))
  analyse widenLoops

def append (ns : List Nat) : Planning Unit := do setCurrent ((← get).current ++ ns)

def detectTaskParallelism (t : TaskInput) : Planning Unit := do
  prepareRoles
  setCurrent []
  append (← detectTasks)
  append (← detectRegions)
  shareLines
  detectTaskloops
  dropUselessBarriers
  detectBarriers
  validateBarriers
  dependOnCalls t
  coverGlobals
  combineOmittables
  coverReturns
  shareInFunctions
  dropDuplicates
  correctLoopBodies
  let lines ← lift t.definitionLines
  filterSharing lines
  filterDepend lines
  dropRepeatedNames
  groupTasks
  sortByLine

end Planning

/-- Suggests the tasks of the program that files describe, after its units have been split and the
description has been written anew. The units on the lines of the earlier description still count.
The directory of the listing program must be known. -/
def TaskInput.detect (t : TaskInput) (earlier : UnitFile) (buildDirectory : Option String) :
    Result Plan := do
  if buildDirectory.isNone || buildDirectory == some "None" then throw .noBuildDirectory
  let description := (← SplitUnits.ofDescription (← t.files.read t.paths.units)).written
  let g ← (← ProgramInput.loadAfter earlier description t.files t.paths).toGraph
  let search : Planning Unit := do
    let _ ← Planning.analyse detectReductions
    let _ ← Planning.analyse detectDoAll
    Planning.detectTaskParallelism t
  let (r, plan) := search.runOn { graph := g }
  let _ ← r
  return plan

end ParallelPatterns
