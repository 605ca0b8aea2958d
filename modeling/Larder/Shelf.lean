import Std.Data.HashMap
import Larder.Time.Deadline
import Larder.Recency

/-! A bounded map. Entries are found by their key, and each has a place in the order of last
use; when there are too many, those used longest ago leave. The clock is an argument, so no
answer depends on anything but the shelf and what it is asked. -/

namespace Larder

namespace Shelf

/-- An entry and its place in the order of last use. -/
structure Slot where
  entry : Entry
  handle : Handle
  deriving DecidableEq, Repr

/-- What a look-up that counts as a use has found. -/
inductive Lookup
  | hit (value : String)
  | expired
  | miss
  deriving DecidableEq, Repr

end Shelf

structure Shelf where
  slots : Std.HashMap String Shelf.Slot
  recency : Recency
  capacity : Nat

namespace Shelf

def empty (capacity : Nat) : Shelf := ⟨∅, .empty, capacity⟩

def size (s : Shelf) : Nat := s.slots.size

def isEmpty (s : Shelf) : Bool := s.slots.isEmpty

def find? (s : Shelf) (key : String) : Option Entry := s.slots[key]?.map Slot.entry

def contains (s : Shelf) (key : String) : Bool := s.slots.contains key

/-- Whether the key has an entry whose deadline has passed. -/
def isExpired (s : Shelf) (key : String) (now : Millis) : Bool :=
  match s.slots[key]? with
  | none => false
  | some slot => slot.entry.hasExpired now

/-- The entry if its deadline has not passed; looking does not count as a use. -/
def peek? (s : Shelf) (key : String) (now : Millis) : Option Entry :=
  (s.find? key).filter fun e => !e.hasExpired now

def remove (s : Shelf) (key : String) : Bool × Shelf :=
  match s.slots[key]? with
  | none => (false, s)
  | some slot =>
    (true,
      { s with slots := s.slots.erase key, recency := (s.recency.remove slot.handle).2 })

/-- An entry whose deadline has passed leaves at once. -/
def get (s : Shelf) (key : String) (now : Millis) : Lookup × Shelf :=
  match s.slots[key]? with
  | none => (.miss, s)
  | some slot =>
    if slot.entry.hasExpired now then (.expired, (s.remove key).2)
    else (.hit slot.entry.value, { s with recency := (s.recency.touch slot.handle).2 })

/-- Takes the keys used longest ago until the capacity is kept. -/
def evictFrom : Nat → List String → Shelf → List String × Shelf
  | 0, gone, s => (gone.reverse, s)
  | fuel + 1, gone, s =>
    if s.capacity < s.size then
      match s.recency.evictOldest with
      | (none, _) => (gone.reverse, s)
      | (some key, recency) =>
        evictFrom fuel (key :: gone) { s with slots := s.slots.erase key, recency }
    else (gone.reverse, s)

/-- The keys that had to leave, the one used longest ago first. -/
def evict (s : Shelf) : List String × Shelf := evictFrom s.size [] s

/-- A key that is there keeps its slot and becomes the newest. -/
def put (s : Shelf) (key value : String) (deadline : Deadline) : List String × Shelf :=
  match s.slots[key]? with
  | some slot =>
    ([], { s with
      slots := s.slots.insert key ⟨⟨value, deadline⟩, slot.handle⟩
      recency := (s.recency.touch slot.handle).2 })
  | none =>
    let (handle, recency) := s.recency.push key
    evict { s with slots := s.slots.insert key ⟨⟨value, deadline⟩, handle⟩, recency }

def removeIfExpired (s : Shelf) (key : String) (now : Millis) : Bool × Shelf :=
  if s.isExpired key now then s.remove key else (false, s)

/-- All keys, the one used last first. -/
def keysByRecency (s : Shelf) : List String := s.recency.keys

def expiredKeys (s : Shelf) (now : Millis) : List String :=
  s.keysByRecency.filter fun key => s.isExpired key now

/-- The expired keys in a stretch of slots of at least one, and where the next stretch begins
if there is one. -/
def expiredSlice (s : Shelf) (cursor limit : Nat) (now : Millis) : List String × Option Nat :=
  let stop := cursor + max limit 1
  ((s.recency.keysInSlots cursor stop).filter fun key => s.isExpired key now,
    if stop < s.recency.slotCount then some stop else none)

end Shelf

end Larder
