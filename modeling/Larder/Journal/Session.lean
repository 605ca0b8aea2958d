import Larder.Journal

/-! A journal in use, as data: it is opened, appended to, closed and read again and again, while
the disk gets better or worse and somebody else may add to the file. One writer and one reader
are held at a time. -/

namespace Larder.Journal

structure Session where
  disk : Disk
  path : Path
  writer : Option (Location × Writer)
  reader : Option Reader

namespace Session

inductive Step
  | open
  | append (r : Record)
  | close
  | read
  | startReader
  | nextItem
  | content
  | setOutlook (outlook : Outlook)
  | appendFreely (bytes : Bytes)

inductive Answer
  | done
  | opened
  | noWriter
  | noReader
  | failed (e : OsError)
  | items (is : List Item)
  | lines (read : Nat)
  | item (i : Option Item) (read : Nat)
  | content (bytes : Option Bytes)

def start (disk : Disk) (path : Path) : Session := ⟨disk, path, none, none⟩

def ofResult {α : Type} (wrap : α → Answer) : Except OsError α → Answer
  | .error e => .failed e
  | .ok a => wrap a

/-- Opens the journal; a writer that was held is let go first. -/
def openWriter (s : Session) : Answer × Session :=
  match s.disk.openJournal s.path with
  | (.error e, disk) => (.failed e, { s with disk, writer := none })
  | (.ok w, disk) => (.opened, { s with disk, writer := some w })

def append (s : Session) (r : Record) : Answer × Session :=
  match s.writer with
  | none => (.noWriter, s)
  | some (l, w) =>
    let ((result, w), disk) := s.disk.onFile l fun m =>
      let o := w.append r m
      ((o.result, o.writer), o.medium)
    (ofResult (fun _ => .done) result, { s with disk, writer := some (l, w) })

/-- Lets the writer go, also if the last sync fails. -/
def close (s : Session) : Answer × Session :=
  match s.writer with
  | none => (.noWriter, s)
  | some (l, w) =>
    let (result, disk) := s.disk.onFile l w.close
    (ofResult (fun _ => .done) result, { s with disk, writer := none })

def startReader (s : Session) : Answer × Session :=
  match s.disk.reader s.path with
  | .error e => (.failed e, s)
  | .ok r => (.lines r.linesRead, { s with reader := some r })

def nextItem (s : Session) : Answer × Session :=
  match s.reader with
  | none => (.noReader, s)
  | some r =>
    let (i, r) := r.next
    (.item i r.linesRead, { s with reader := some r })

def step (s : Session) : Step → Answer × Session
  | .open => s.openWriter
  | .append r => s.append r
  | .close => s.close
  | .read => (ofResult (fun r => .items r.items) (s.disk.reader s.path), s)
  | .startReader => s.startReader
  | .nextItem => s.nextItem
  | .content => (.content ((s.disk.file? s.path).map Prod.snd), s)
  | .setOutlook outlook => (.done, { s with disk := { s.disk with outlook } })
  | .appendFreely bytes => (.done, { s with disk := s.disk.appendFreely s.path bytes })

end Session

end Larder.Journal
