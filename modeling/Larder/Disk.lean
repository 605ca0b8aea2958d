import Larder.Disk.Medium
import Larder.Disk.Tree

/-! A disk: its files, and the failures that lie ahead for all of them together. -/

namespace Larder

structure Disk where
  tree : Tree
  outlook : Outlook

namespace Disk

def empty : Disk := ⟨.empty, .clear⟩

/-- Works on one file. -/
def onFile {α : Type} (d : Disk) (l : Location) (act : Medium → α × Medium) : α × Disk :=
  let (a, m) := act ⟨d.tree.content l, d.outlook⟩
  (a, ⟨d.tree.put l (.file m.bytes), m.outlook⟩)

/-- The plain file a path leads to. -/
def file? (d : Disk) (p : Path) : Option (Location × Bytes) :=
  match d.tree.find p with
  | .ok (l, .file bytes) => some (l, bytes)
  | _ => none

def createWithParents (d : Disk) (p : Path) : Except OsError Location × Disk :=
  let (r, tree) := d.tree.createWithParents p
  (r, { d with tree })

/-- Somebody else adds bytes to a file, for whom nothing fails. -/
def appendFreely (d : Disk) (p : Path) (bs : Bytes) : Disk :=
  match d.tree.createFile p with
  | (.error _, _) => d
  | (.ok l, tree) => { d with tree := tree.put l (.file (tree.content l ++ bs)) }

def addDirectory (d : Disk) (p : Path) : Disk :=
  { d with tree := (d.tree.makeDirectories p.trimmed).2 }

def addFile (d : Disk) (p : Path) (bs : Bytes) : Disk :=
  match d.tree.createWithParents p with
  | (.error _, tree) => { d with tree }
  | (.ok l, tree) => { d with tree := tree.put l (.file bs) }

end Disk

end Larder
