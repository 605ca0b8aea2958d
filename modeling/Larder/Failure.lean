import Larder.Disk.OsError
import Larder.Record.Decode
import Larder.Text.Utf8

/-! Why a request is not granted. -/

namespace Larder

inductive IoFailure
  | system (e : OsError)
  | stated (text : String)
  deriving DecidableEq, Repr

def IoFailure.message : IoFailure → String
  | .system e => e.message
  | .stated text => text

/-- Why a line of a journal is no record. -/
inductive LineError
  | invalidUtf8 (defect : Text.Utf8.Defect)
  | unterminated
  | undecodable (e : Record.DecodeError)
  | stated (text : String)

def LineError.message : LineError → String
  | .invalidUtf8 defect => "invalid UTF-8: " ++ defect.message
  | .unterminated => "unterminated final record"
  | .undecodable e => e.message
  | .stated text => text

def keyLimit : Nat := 256

def valueLimit : Nat := 1024 * 1024

/-- What is wrong with a request or a setting. -/
inductive Objection
  | emptyKey
  | keyTooLong
  | valueTooLong
  | noEntries
  | noInterval
  | noBatch
  | unknownPolicy (text : String)
  | stated (text : String)
  deriving DecidableEq, Repr

def Objection.message : Objection → String
  | .emptyKey => "Key cannot be empty"
  | .keyTooLong => "Key exceeds maximum length of " ++ toString keyLimit ++ " bytes"
  | .valueTooLong => "Value exceeds maximum size of " ++ toString valueLimit ++ " bytes"
  | .noEntries => "max_entries must be at least 1"
  | .noInterval => "sweep_interval must be non-zero"
  | .noBatch => "sweep_batch_size must be at least 1"
  | .unknownPolicy text => "Unknown corruption policy '" ++ text ++ "'"
  | .stated text => text

inductive Failure
  | io (cause : IoFailure)
  | corruptLine (number : Nat) (reason : LineError)
  | invalid (objection : Objection)
  | closed
  | notFound (key : String)
  | internal (text : String)

def Failure.message : Failure → String
  | .io cause => "I/O failure: " ++ cause.message
  | .corruptLine number reason =>
    "Corrupt record at line " ++ toString number ++ ": " ++ reason.message
  | .invalid objection => "Invalid request: " ++ objection.message
  | .closed => "Cache engine is closed"
  | .notFound key => "Key not found: " ++ key
  | .internal text => "Internal error: " ++ text

/-- The first thing wrong with a key, if any. -/
def keyObjection? (key : String) : Option Objection :=
  if key = "" then some .emptyKey
  else if keyLimit < key.utf8ByteSize then some .keyTooLong
  else none

/-- The first thing wrong with a key and a value to be stored under it, if any. -/
def entryObjection? (key value : String) : Option Objection :=
  match keyObjection? key with
  | some o => some o
  | none => if valueLimit < value.utf8ByteSize then some .valueTooLong else none

end Larder
