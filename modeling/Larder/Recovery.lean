import Larder.Journal
import Larder.Store

/-! Bringing a store back from its journal: what the journal holds is replayed onto an empty
shelf, and only then is it opened for appending, so a replay that fails leaves the file as it
was. -/

namespace Larder

structure Recovered where
  store : Store
  tally : Replay.Tally

namespace Recovery

/-- Replays what a journal holds onto an empty shelf. -/
def replay (settings : Settings) (now : Millis) (items : List Journal.Item) :
    Except Failure Replay.Tally × Shelf :=
  Replay.run settings.policy now (.empty settings.maxEntries) items

/-- Replays one file and opens it. -/
def load (settings : Settings) (now : Millis) (m : Medium) : Except Failure Recovered × Medium :=
  match replay settings now (Journal.items m.bytes) with
  | (.error f, _) => (.error f, m)
  | (.ok tally, shelf) =>
    match Journal.Writer.open? m with
    | (.error e, m) => (.error (.io (.system e)), m)
    | (.ok w, m) => (.ok ⟨.ofShelf shelf w settings, tally⟩, m)

end Recovery

/-- The store that came back from the journal at a path, and where that is. -/
def Disk.load (d : Disk) (p : Path) (settings : Settings) (now : Millis) :
    Except Failure (Location × Recovered) × Disk :=
  match d.reader p with
  | .error e => (.error (.io (.system e)), d)
  | .ok reader =>
    match Recovery.replay settings now reader.items with
    | (.error f, _) => (.error f, d)
    | (.ok tally, shelf) =>
      match d.openJournal p with
      | (.error e, d) => (.error (.io (.system e)), d)
      | (.ok (l, w), d) => (.ok (l, ⟨.ofShelf shelf w settings, tally⟩), d)

end Larder
