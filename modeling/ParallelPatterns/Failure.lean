import ParallelPatterns.Text.Literal

/-!
# What can go wrong

Every way in which reading a program graph, detecting patterns, or writing directives can fail. A
failure is a cause; `Failure.kind` sorts the causes, and `Failure.message` is the one place where
the wording of a reported cause stands. Causes without a message are noticed where a value is used,
not where a rule of this library rejects it.
-/

namespace ParallelPatterns

inductive FailureKind where
  | value
  | key
  | index
  | property
  | sort
  | requirement
  | file
  /-- A path that names a directory where a file is needed. -/
  | directory
  | markup
  | json
  | storedObject
  | expression
  /-- A computation that would never end. -/
  | recursion
  | unimplemented
  | stop
  | module
  | system
  | general
  deriving DecidableEq, Repr

inductive Failure where
  | notANumber
  | absentText
  /-- A record has more or fewer items than it should. -/
  | wrongLength
  | namelessVariable
  | unknownKey
  | outOfRange
  | missingProperty
  | wrongSort
  | requirement
  | noSuchFile
  | isDirectory
  | malformedMarkup
  | malformedJson
  | malformedObject
  | malformedExpression
  /-- A computation would never end. -/
  | endless
  /-- A text form that a pattern has only together with its graph. -/
  | noPlainText
  | noSuchModule
  /-- The identifier of a node is not of the form `file:number`. -/
  | malformedNodeId (text : String)
  /-- The identifier of a line is not of the form `file:number`. -/
  | malformedLineId (text : String)
  | tooManyParents (node : String)
  | noEntryUnit (function : String)
  | noVariables
  | invalidSourceLine
  | invalidFileId
  | unsupportedClause (name : String) (args : String)
  | noSuccessors
  | unsupportedTransfer (source target : Int)
  | unsupportedLiveTransfer (kind : String)
  | unsupportedTransferKind (kind : String)
  | filesDiffer (first last : String)
  | brokenTaskGroup (node : String) (groups : List Int)
  | noMatchingCall
  | nodeSpansFiles
  | unknownTarget (kind : String)
  /-- The function that is called cannot be told. -/
  | insufficientInformation
  | noCalledFunction
  | noDemangler (program : String)
  | noEnclosingUnit
  | noBuildDirectory
  | fileNotFound (path : String)
  | noPatternFile (path : String)
  | unknownFile (path : String)
  | noFileMapping (path : String)
  | unsupportedPosition (text : String)
  | unsupportedUpdate (text : String)
  | unsupportedEntryKind (text : String)
  | unsupportedExitKind (text : String)
  | unsupportedPointPosition (text : String)
  /-- A directive has no start or no end line. -/
  | unsupportedLines (first last : String)
  | unsupportedFile (file : String)
  | unsupportedDirectivePosition (text : String)
  | unsupportedPatternName (name : String)
  | commandFileNotFound (path : String)
  | exitText (text : String)
  | exitCode (code : Option Int)
  deriving DecidableEq, Repr

namespace Failure

open Text

def kind : Failure → FailureKind
  | notANumber => .value
  | unknownKey => .key
  | outOfRange => .index
  | missingProperty => .property
  | wrongSort => .sort
  | requirement => .requirement
  | noSuchFile => .file
  | isDirectory => .directory
  | malformedMarkup => .markup
  | malformedJson => .json
  | malformedObject => .storedObject
  | malformedExpression => .expression
  | endless => .recursion
  | noPlainText => .unimplemented
  | noSuchModule => .module
  | namelessVariable => .system
  | invalidSourceLine => .requirement
  | invalidFileId => .requirement
  | noMatchingCall => .general
  | nodeSpansFiles => .general
  | commandFileNotFound _ => .file
  | exitText _ => .stop
  | exitCode _ => .stop
  | _ => .value

def partsMessage (parts : List String) : Option String := some (tupleLiteral parts)

/-- The wording of a cause that a rule of this library reports. -/
def message : Failure → Option String
  | requirement => some ""
  | noPlainText => some ""
  | malformedNodeId text => partsMessage [literal "Mal-formatted NodeID: ", literal text]
  | malformedLineId text => partsMessage [literal "Mal-formatted LineID: ", literal text]
  | tooManyParents node => partsMessage [literal "Node: ", literal node, literal "has too many parents!"]
  | noEntryUnit function =>
    partsMessage [literal "Mal-formatted function: ", literal function, literal " - No entry CU found!"]
  | noVariables => some "allVars must not be empty."
  | invalidSourceLine => some "invalid src line"
  | invalidFileId => some "invalid file id"
  | unsupportedClause name args =>
    partsMessage [literal "Unsupported name: ", literal name, literal "and args:", args]
  | noSuccessors => some "Empty list of successors!"
  | unsupportedTransfer source target =>
    some ("Unsupported update type requested for device IDS: " ++ toString source ++ " -> " ++
      toString target)
  | unsupportedLiveTransfer kind => partsMessage [literal "Unsupported Update type: ", kind]
  | unsupportedTransferKind kind => partsMessage [literal "Unsupported update type: ", kind]
  | filesDiffer first last =>
    partsMessage [literal "File-ids not equal! ", literal first, literal last]
  | brokenTaskGroup node groups =>
    partsMessage [literal "Task Group creation led to erroneous results: NodeId:", literal node,
      literal "  Task Group: ", "[" ++ ", ".intercalate (groups.map toString) ++ "]"]
  | noMatchingCall => some "no matching entries for callsNode found!"
  | nodeSpansFiles => some "error in Data.xml: FileIds of startsAtLine and endsAtLine not matching!"
  | unknownTarget kind => partsMessage [literal "Unknown type: ", literal kind]
  | insufficientInformation => some "Unsufficient information!"
  | noCalledFunction => some "No valid called function could be found!"
  | noDemangler program =>
    some ("Executable '" ++ program ++ "' not found. Check or supply --llvm-cxxfilt-path parameter.")
  | noEnclosingUnit => some "No surrounding worker CU could be found."
  | noBuildDirectory => some "Path to DiscoPoP build directory not specified!"
  | fileNotFound path => some ("File not found: \"" ++ path ++ "\"")
  | noPatternFile path => partsMessage [literal "Path does not exist!", literal path]
  | unknownFile path => partsMessage [literal "Unknown file: ", literal path]
  | noFileMapping path => partsMessage [literal "Path does not exist! ", literal path]
  | unsupportedPosition text =>
    partsMessage [literal "Unsupported positioning information: ", text]
  | unsupportedUpdate text => partsMessage [literal "Unsupported update type: ", text]
  | unsupportedEntryKind text => partsMessage [literal "Usupported EntryPointType: ", text]
  | unsupportedExitKind text => partsMessage [literal "Usupported ExitPointType: ", text]
  | unsupportedPointPosition text =>
    partsMessage [literal "Usupported ExitPointPositioning: ", text]
  | unsupportedLines first last =>
    partsMessage [literal "Unsupported start or end line: ", first, literal "-", last]
  | unsupportedFile file => partsMessage [literal "Unsupported file_id: ", file]
  | unsupportedDirectivePosition text => partsMessage [literal "Unsupported pragma position: ", text]
  | unsupportedPatternName name =>
    partsMessage [literal "Unsupported pattern name: ", literal name,
      literal " given in '--patterns' argument!"]
  | commandFileNotFound path => some ("[Errno File not found: ] " ++ path)
  | exitText text => some text
  | _ => none

end Failure

abbrev Result := Except Failure

end ParallelPatterns
