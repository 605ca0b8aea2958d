import Larder.Journal.Reader
import Larder.Shelf
import Larder.Settings

/-! Records are put back on a shelf in the order in which they were written. A record whose
deadline has passed only takes away what its key held before. Lines that are no records are
left out or end the replay, as the policy says; a disk that cannot be read always ends it. -/

namespace Larder.Replay

structure Tally where
  read : Nat
  sets : Nat
  deletes : Nat
  expired : Nat
  corrupt : Nat
  evictions : Nat
  deriving DecidableEq, Repr

def Tally.zero : Tally := ⟨0, 0, 0, 0, 0, 0⟩

structure State where
  shelf : Shelf
  tally : Tally

def start (shelf : Shelf) : State := ⟨shelf, .zero⟩

def apply (now : Millis) (s : State) : Record → State
  | .set key value deadline =>
    if deadline.hasPassed now then
      ⟨(s.shelf.remove key).2,
        { s.tally with read := s.tally.read + 1, expired := s.tally.expired + 1 }⟩
    else
      let (gone, shelf) := s.shelf.put key value deadline
      ⟨shelf,
        { s.tally with
          read := s.tally.read + 1
          sets := s.tally.sets + 1
          evictions := s.tally.evictions + gone.length }⟩
  | .delete key =>
    ⟨(s.shelf.remove key).2,
      { s.tally with read := s.tally.read + 1, deletes := s.tally.deletes + 1 }⟩

def skipLine (s : State) : State :=
  { s with tally := { s.tally with corrupt := s.tally.corrupt + 1 } }

/-- The state reached, and the failure that ended the replay if one did. -/
def runItems (policy : Policy) (now : Millis) (s : State) :
    List Journal.Item → Option Failure × State
  | [] => (none, s)
  | .ok r :: rest => runItems policy now (apply now s r) rest
  | .error (.corruptLine number reason) :: rest =>
    match policy with
    | .strict => (some (.corruptLine number reason), s)
    | .skip => runItems policy now (skipLine s) rest
  | .error f :: _ => (some f, s)

/-- Replays items onto a shelf; what came before a failure stays there. -/
def run (policy : Policy) (now : Millis) (shelf : Shelf) (items : List Journal.Item) :
    Except Failure Tally × Shelf :=
  match runItems policy now (start shelf) items with
  | (some f, s) => (.error f, s.shelf)
  | (none, s) => (.ok s.tally, s.shelf)

end Larder.Replay
