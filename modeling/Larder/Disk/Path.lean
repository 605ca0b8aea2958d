import Larder.Text.Utf8
import Larder.Disk.OsError

/-! Paths, kept as they are written: their length counts for the system, slashes and dots
included. It walks the parts between slashes, of which one dot stays where it is and two dots
lead one directory up. A slash at the end asks for a directory. -/

namespace Larder

namespace Path

inductive Part
  | here
  | up
  | name (bytes : Bytes)
  deriving DecidableEq, Repr

/-- The pieces between slashes; those without a byte do not count. `piece` is the one that has
been begun, last byte first. -/
def piecesFrom (piece : Bytes) : Bytes → List Bytes
  | [] => if piece = [] then [] else [piece.reverse]
  | b :: rest =>
    if b ≠ 47 then piecesFrom (b :: piece) rest
    else if piece = [] then piecesFrom [] rest
    else piece.reverse :: piecesFrom [] rest

def Part.of (piece : Bytes) : Part :=
  if piece = [46] then .here else if piece = [46, 46] then .up else .name piece

end Path

structure Path where
  bytes : Bytes
  deriving DecidableEq, Repr

namespace Path

def parts (p : Path) : List Part := (piecesFrom [] p.bytes).map Part.of

def endsInSlash (p : Path) : Bool := p.bytes.getLast? == some 47

/-- Takes slashes, and dots behind a slash, off a path that is written backwards. -/
def dropIdle : Bytes → Bytes
  | 47 :: rest => dropIdle rest
  | 46 :: 47 :: rest => dropIdle rest
  | bs => bs

/-- The path without what its end does not need. -/
def trimmed (p : Path) : Path := ⟨(dropIdle p.bytes.reverse).reverse⟩

/-- The path to the directory the last part stands in; empty if there is but one part. -/
def parent (p : Path) : Path :=
  trimmed ⟨(p.trimmed.bytes.reverse.dropWhile (· ≠ 47)).reverse⟩

/-- The longest name the system takes. -/
def nameLimit : Nat := 255

/-- Paths have to be shorter than this. -/
def pathLimit : Nat := 4096

/-- Why a path is refused before anything is looked up, if it is. -/
def obstacle? (p : Path) : Option OsError :=
  if p.bytes.contains 0 then some .nulInName
  else if pathLimit ≤ p.bytes.length then some .nameTooLong
  else none

end Path

end Larder
