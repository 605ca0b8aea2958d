import Larder.Journal.Writer
import Larder.Replay
import Larder.Counters

/-! A store serves values from memory and writes every change to its journal first. A change that
cannot be written is not made. Looking an entry up moves it to the front and is not written down,
so where room is short a replay may come to let other entries go. Expired entries leave when they
are looked up or swept; neither is written down, since a replay judges deadlines itself. Once
closed, a store still serves what it holds and changes nothing. -/

namespace Larder

structure Store where
  shelf : Shelf
  /-- Gone once the store is closed. -/
  writer : Option Journal.Writer
  counters : Counters
  defaultTtl : Option Duration
  sweepBatch : Nat
  closed : Bool

namespace Store

/-- The answer to a request, and the store and its journal's file afterwards. -/
structure Outcome (α : Type) where
  answer : α
  store : Store
  medium : Medium

def ofShelf (shelf : Shelf) (writer : Journal.Writer) (settings : Settings) : Store where
  shelf := shelf
  writer := some writer
  counters := Counters.zero.hold shelf.size
  defaultTtl := settings.defaultTtl
  sweepBatch := max settings.sweepBatch 1
  closed := false

/-- Counts the entries anew. -/
def recount (s : Store) : Store := { s with counters := s.counters.hold s.shelf.size }

/-- Writes a record and counts it. -/
def write (s : Store) (m : Medium) (r : Record) : Outcome (Except Failure Unit) :=
  match s.writer with
  | none => ⟨.error .closed, s, m⟩
  | some w =>
    match w.append r m with
    | ⟨.error e, w, m⟩ => ⟨.error (.io (.system e)), { s with writer := some w }, m⟩
    | ⟨.ok _, w, m⟩ =>
      ⟨.ok (), { s with writer := some w, counters := s.counters.append }, m⟩

/-- Puts an entry that has been written on the shelf. -/
def place (s : Store) (key value : String) (deadline : Deadline) : Store :=
  let (gone, shelf) := s.shelf.put key value deadline
  recount { s with shelf, counters := s.counters.evict gone.length }

/-- Without a time to live of its own an entry has the one of the settings. -/
def deadlineFor (s : Store) (now : Millis) (ttl : Option Duration) : Deadline :=
  Deadline.ofTtl now (ttl.or s.defaultTtl)

def set (s : Store) (m : Medium) (now : Millis) (key value : String) (ttl : Option Duration) :
    Outcome (Except Failure Unit) :=
  match entryObjection? key value with
  | some o => ⟨.error (.invalid o), s, m⟩
  | none =>
    let deadline := s.deadlineFor now ttl
    match s.write m (.set key value deadline) with
    | ⟨.error f, s, m⟩ => ⟨.error f, s, m⟩
    | ⟨.ok _, s, m⟩ => ⟨.ok (), s.place key value deadline, m⟩

def get (s : Store) (now : Millis) (key : String) : Option String × Store :=
  match s.shelf.get key now with
  | (.hit value, shelf) => (some value, { s with shelf, counters := s.counters.hit })
  | (.expired, shelf) =>
    (none, recount { s with shelf, counters := s.counters.miss.expire 1 })
  | (.miss, shelf) => (none, { s with shelf, counters := s.counters.miss })

/-- The answer is whether the key was still being served. The record is written even if the key
is not there, so that an entry that had to leave does not come back with a replay. -/
def delete (s : Store) (m : Medium) (now : Millis) (key : String) :
    Outcome (Except Failure Bool) :=
  match keyObjection? key with
  | some o => ⟨.error (.invalid o), s, m⟩
  | none =>
    match s.write m (.delete key) with
    | ⟨.error f, s, m⟩ => ⟨.error f, s, m⟩
    | ⟨.ok _, s, m⟩ =>
      let served := (s.shelf.peek? key now).isSome
      ⟨.ok served, recount { s with shelf := (s.shelf.remove key).2 }, m⟩

/-- Looking changes nothing. -/
def contains (s : Store) (now : Millis) (key : String) : Bool := (s.shelf.peek? key now).isSome

def size (s : Store) : Nat := s.shelf.size

def stats (s : Store) : Counters := s.recount.counters

/-- Syncs the journal for the last time. The store is closed even if that fails. -/
def close (s : Store) (m : Medium) : Outcome (Except Failure Unit) :=
  let s' := { s with writer := none, closed := true }
  match s.writer with
  | none => ⟨.ok (), s', m⟩
  | some w =>
    match w.close m with
    | (.error e, m) => ⟨.error (.io (.system e)), s', m⟩
    | (.ok _, m) => ⟨.ok (), s', m⟩

end Store

end Larder
