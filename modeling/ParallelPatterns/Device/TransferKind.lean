import ParallelPatterns.Failure

/-!
# Kinds of transfers

Data goes to the device or comes from it; memory may also only be allocated there. The host is
device 0.
-/

namespace ParallelPatterns

/-- The direction of a transfer between host and device. -/
inductive TransferKind where
  | toDevice
  | fromDevice
  | both
  | allocate
  deriving DecidableEq, Repr, Inhabited

namespace TransferKind

def name : TransferKind → String
  | toDevice => "TO_DEVICE"
  | fromDevice => "FROM_DEVICE"
  | both => "TO_FROM_DEVICE"
  | allocate => "ALLOCATE"

def number : TransferKind → Int
  | toDevice => 0
  | fromDevice => 1
  | both => 2
  | allocate => 3

def all : List TransferKind := [toDevice, fromDevice, both, allocate]

def ofName? (s : String) : Option TransferKind := all.find? fun k => k.name == s

def literal (k : TransferKind) : String := "<UpdateType." ++ k.name ++ ": " ++ toString k.number ++ ">"

def between (source target : Int) : Result TransferKind :=
  if source == 0 && target != 0 then .ok .toDevice
  else if source != 0 && target == 0 then .ok .fromDevice
  else .error (.unsupportedTransfer source target)

end TransferKind

end ParallelPatterns
