/-! Why a file operation is refused, with the wording and the number the operating system has for
it. A name with a NUL byte in it never gets as far as the system, so it has no number. -/

namespace Larder

inductive OsError
  | notPermitted
  | notFound
  | inputOutput
  | permissionDenied
  | exists
  | notDirectory
  | isDirectory
  | fileTooLarge
  | noSpace
  | readOnly
  | nameTooLong
  | nulInName
  deriving DecidableEq, Repr

namespace OsError

def code? : OsError → Option Nat
  | .notPermitted => some 1
  | .notFound => some 2
  | .inputOutput => some 5
  | .permissionDenied => some 13
  | .exists => some 17
  | .notDirectory => some 20
  | .isDirectory => some 21
  | .fileTooLarge => some 27
  | .noSpace => some 28
  | .readOnly => some 30
  | .nameTooLong => some 36
  | .nulInName => none

def reason : OsError → String
  | .notPermitted => "Operation not permitted"
  | .notFound => "No such file or directory"
  | .inputOutput => "Input/output error"
  | .permissionDenied => "Permission denied"
  | .exists => "File exists"
  | .notDirectory => "Not a directory"
  | .isDirectory => "Is a directory"
  | .fileTooLarge => "File too large"
  | .noSpace => "No space left on device"
  | .readOnly => "Read-only file system"
  | .nameTooLong => "File name too long"
  | .nulInName => "file name contained an unexpected NUL byte"

def all : List OsError :=
  [.notPermitted, .notFound, .inputOutput, .permissionDenied, .exists, .notDirectory,
    .isDirectory, .fileTooLarge, .noSpace, .readOnly, .nameTooLong, .nulInName]

def ofCode? (n : Nat) : Option OsError := all.find? fun e => e.code? == some n

def message (e : OsError) : String :=
  match e.code? with
  | none => e.reason
  | some n => e.reason ++ " (os error " ++ toString n ++ ")"

end OsError

end Larder
