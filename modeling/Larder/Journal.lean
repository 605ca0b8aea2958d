import Larder.Disk
import Larder.Journal.Reader
import Larder.Journal.Writer

/-! Journals at their places on a disk. One that is not there reads as an empty one and is
created when it is opened for appending. -/

namespace Larder.Disk

/-- The journal at a path; a directory fails when the first line is read. -/
def reader (d : Disk) (p : Path) : Except OsError Journal.Reader :=
  match d.tree.find p with
  | .error .notFound => .ok (.ofBytes [])
  | .error e => .error e
  | .ok (_, .directory _) => .ok (.failing .isDirectory)
  | .ok (_, .file bytes) => .ok (.ofBytes bytes)

/-- A journal opened for appending, and where it is. -/
def openJournal (d : Disk) (p : Path) : Except OsError (Location × Journal.Writer) × Disk :=
  match d.createWithParents p with
  | (.error e, d) => (.error e, d)
  | (.ok l, d) =>
    let (r, d) := d.onFile l Journal.Writer.open?
    (r.map fun w => (l, w), d)

end Larder.Disk
