import Larder.Disk.OsError
import Larder.Text.Utf8

/-! One file and what lies ahead for it. A disk can run out of room in the middle of a write,
which then leaves the part that fitted; it can fail to sync, which does not undo the write; and
it can fail to cut the file, which then stays as it is. Which of the coming calls fail is fixed
beforehand, call by call, and may be any pattern. -/

namespace Larder

/-- Whether a call fails, by the number of calls before it. -/
structure Trouble where
  fails : Nat → Bool
  calls : Nat

namespace Trouble

def none : Trouble := ⟨fun _ => false, 0⟩

/-- The next `n` calls fail and no others. -/
def first (n : Nat) : Trouble := ⟨fun k => decide (k < n), 0⟩

def strikes (t : Trouble) : Bool := t.fails t.calls

def next (t : Trouble) : Trouble := { t with calls := t.calls + 1 }

end Trouble

structure Outlook where
  /-- Bytes that can still be written; `none` if there is no end of them. -/
  room : Option Nat
  syncs : Trouble
  cuts : Trouble

/-- Nothing fails. -/
def Outlook.clear : Outlook := ⟨none, .none, .none⟩

structure Medium where
  bytes : Bytes
  outlook : Outlook

namespace Medium

/-- Writes at the end until everything is written or there is no room left. -/
def write (m : Medium) (bs : Bytes) : Except OsError Unit × Medium :=
  match m.outlook.room with
  | none => (.ok (), { m with bytes := m.bytes ++ bs })
  | some room =>
    if bs.length ≤ room then
      (.ok (), ⟨m.bytes ++ bs, { m.outlook with room := some (room - bs.length) }⟩)
    else
      (.error .noSpace, ⟨m.bytes ++ bs.take room, { m.outlook with room := some 0 }⟩)

def sync (m : Medium) : Except OsError Unit × Medium :=
  (if m.outlook.syncs.strikes then .error .inputOutput else .ok (),
    { m with outlook := { m.outlook with syncs := m.outlook.syncs.next } })

/-- Sets the length; a file that was shorter is filled up with zeros. -/
def cut (m : Medium) (length : Nat) : Except OsError Unit × Medium :=
  let outlook := { m.outlook with cuts := m.outlook.cuts.next }
  if m.outlook.cuts.strikes then (.error .inputOutput, ⟨m.bytes, outlook⟩)
  else
    (.ok (), ⟨m.bytes.take length ++ List.replicate (length - m.bytes.length) 0, outlook⟩)

/-- Cuts and, if that went well, syncs. -/
def cutAndSync (m : Medium) (length : Nat) : Except OsError Unit × Medium :=
  match m.cut length with
  | (.error e, m) => (.error e, m)
  | (.ok _, m) => m.sync

/-- Writes and, if that went well, syncs. -/
def writeAndSync (m : Medium) (bs : Bytes) : Except OsError Unit × Medium :=
  match m.write bs with
  | (.error e, m) => (.error e, m)
  | (.ok _, m) => m.sync

@[simp]
theorem bytes_sync (m : Medium) : m.sync.2.bytes = m.bytes := rfl

end Medium

end Larder
