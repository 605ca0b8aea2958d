import Larder.Store

/-! A sweep takes expired entries off the shelf, a stretch of slots at a time; between two
slices the store may be used. An entry that came into a slot the sweep has passed stays until
the next one. Nothing is written down. -/

namespace Larder

structure Sweep where
  batch : Nat
  /-- Where the next slice begins; `none` when there is none. -/
  cursor : Option Nat
  removed : Nat
  deriving DecidableEq, Repr

namespace Sweep

/-- A sweep that has not begun. A slice looks at one slot at least. -/
def start (batch : Nat) : Sweep := ⟨max batch 1, some 0, 0⟩

/-- Takes those of the keys that are expired off the shelf and counts them. -/
def removeExpired (now : Millis) : List String → Shelf → Nat × Shelf
  | [], shelf => (0, shelf)
  | key :: rest, shelf =>
    let (gone, shelf) := shelf.removeIfExpired key now
    let (n, shelf) := removeExpired now rest shelf
    (if gone then n + 1 else n, shelf)

/-- One slice. -/
def slice (sweep : Sweep) (s : Store) (now : Millis) : Sweep × Store :=
  match sweep.cursor with
  | none => (sweep, s)
  | some cursor =>
    let (keys, next) := s.shelf.expiredSlice cursor sweep.batch now
    let (n, shelf) := removeExpired now keys s.shelf
    let s :=
      if n = 0 then { s with shelf }
      else Store.recount { s with shelf, counters := s.counters.expire n }
    ({ sweep with cursor := next, removed := sweep.removed + n }, s)

/-- Where a sweep stands after it has been given a turn. -/
inductive Turn
  | pending (sweep : Sweep)
  | finished (removed : Nat)
  deriving DecidableEq, Repr

/-- A turn is one slice; it takes one more turn to learn that there are none left. -/
def poll (sweep : Sweep) (s : Store) (now : Millis) : Turn × Store :=
  match sweep.cursor with
  | none => (.finished sweep.removed, s)
  | some _ =>
    let (sweep, s) := sweep.slice s now
    (.pending sweep, s)

/-- The slices that are left, one after the other, in at most so many. -/
def runFrom (now : Millis) : Nat → Sweep → Store → Nat × Store
  | 0, sweep, s => (sweep.removed, s)
  | fuel + 1, sweep, s =>
    match sweep.cursor with
    | none => (sweep.removed, s)
    | some _ =>
      let (sweep, s) := sweep.slice s now
      runFrom now fuel sweep s

end Sweep

/-- A whole sweep; the answer is how many entries were removed. Every slice but the last ends
at a slot, so there is at most one more of them than there are slots. -/
def Store.sweep (s : Store) (now : Millis) (batch : Nat) : Nat × Store :=
  Sweep.runFrom now (s.shelf.recency.slotCount + 1) (.start batch) s

end Larder
