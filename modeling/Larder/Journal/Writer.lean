import Larder.Disk.Medium
import Larder.Record
import Larder.Journal.Tail

/-! Writing a journal. A record counts once it is written and synced; `committed` is the length
of all that counts. What a failed append leaves after that is cut off at once or, if that fails
too, before the next append. Closing cuts nothing off: a record that was written whole and then
refused stays in a file that is let go before it is cut, and is read like any other. -/

namespace Larder.Journal

structure Writer where
  committed : Nat
  torn : Bool
  deriving DecidableEq, Repr

/-- How a call of a writer ended, and the writer and its file afterwards. -/
structure Written where
  result : Except OsError Unit
  writer : Writer
  medium : Medium

namespace Writer

/-- Opens a journal for appending; a record that a crash left incomplete is cut off. -/
def open? (m : Medium) : Except OsError Writer × Medium :=
  let committed := completeLength m.bytes
  if committed < m.bytes.length then
    match m.cutAndSync committed with
    | (.error e, m) => (.error e, m)
    | (.ok _, m) => (.ok ⟨committed, false⟩, m)
  else (.ok ⟨committed, false⟩, m)

/-- Cuts off whatever follows the records that count. -/
def discard (w : Writer) (m : Medium) : Written :=
  match m.cutAndSync w.committed with
  | (.error e, m) => ⟨.error e, w, m⟩
  | (.ok _, m) => ⟨.ok (), { w with torn := false }, m⟩

/-- Appends a line to a journal that has nothing left to cut off. The writer is torn from the
moment something may have been written until it is synced or cut off. -/
def appendLine (w : Writer) (line : Bytes) (m : Medium) : Written :=
  match m.writeAndSync line with
  | (.ok _, m) => ⟨.ok (), { w with committed := w.committed + line.length }, m⟩
  | (.error e, m) =>
    let d := { w with torn := true }.discard m
    ⟨.error e, d.writer, d.medium⟩

def append (w : Writer) (r : Record) (m : Medium) : Written :=
  if w.torn then
    match w.discard m with
    | ⟨.error e, w, m⟩ => ⟨.error e, w, m⟩
    | ⟨.ok _, w, m⟩ => w.appendLine r.bytes m
  else w.appendLine r.bytes m

/-- The last sync before the journal is let go. -/
def close (_ : Writer) (m : Medium) : Except OsError Unit × Medium := m.sync

end Writer

end Larder.Journal
