import Larder.Api.Router
import Larder.Recovery
import Larder.Sweep

/-! What happens to a store over time, as data. A scenario has a disk, a clock, and a store that
comes up from its journal, may crash and come up again. Sweepers wait on a time of their own,
which only moves when time passes and not when the clock is set; a step that ends at or past the
end of a sweeper's wait makes it sweep once and begin to wait anew. A closed store has no
sweepers. -/

namespace Larder

/-- A sweeper that waits until `due` for its next sweep; with no such time it has ended. -/
structure Sweeper where
  interval : Nat
  batch : Nat
  due : Option Nat
  deriving DecidableEq, Repr

structure Scenario where
  disk : Disk
  path : Path
  clock : Instant
  elapsed : Nat
  settings : Settings
  store : Option (Location × Store)
  sweep : Option Sweep
  sweepers : List Sweeper

namespace Scenario

inductive Step
  | set (key value : String) (ttl : Option Duration)
  | get (key : String)
  | delete (key : String)
  | contains (key : String)
  | size
  | stats
  | sweep (batch : Nat)
  | beginSweep (batch : Nat)
  | pollSweep
  | close
  | isClosed
  | crash
  | reopen (settings : Settings)
  | records
  | content
  | setClock (now : Instant)
  | setOutlook (outlook : Outlook)
  | appendFreely (bytes : Bytes)
  | startSweeper (interval : Nat)
  | spawnSweeper (interval batch : Nat)
  | advance (millis : Nat)
  | sweepersEnded
  | abortSweepers
  | request (r : Http.Request)

inductive Answer
  | done
  | noStore
  | noSweep
  | failed (f : Failure)
  | value (v : Option String)
  | truth (b : Bool)
  | size (n : Nat) (isEmpty : Bool)
  | stats (c : Counters)
  | count (n : Nat)
  | pending
  | opened (tally : Replay.Tally)
  | items (is : List Journal.Item)
  | content (bytes : Option Bytes)
  | truths (bs : List Bool)
  | response (r : Http.Response)

def start (disk : Disk) (path : Path) (clock : Instant) (settings : Settings) : Scenario :=
  ⟨disk, path, clock, 0, settings, none, none, []⟩

def now (s : Scenario) : Millis := s.clock.millis

/-- The store, its sweep and its sweepers are gone; the disk stays as it is. -/
def crash (s : Scenario) : Scenario := { s with store := none, sweep := none, sweepers := [] }

/-- Comes up from the journal. -/
def openStore (s : Scenario) : Answer × Scenario :=
  let s := s.crash
  match s.disk.load s.path s.settings s.now with
  | (.error f, disk) => (.failed f, { s with disk })
  | (.ok (l, r), disk) => (.opened r.tally, { s with disk, store := some (l, r.store) })

/-- Asks the store for something that may change its journal. -/
def ask (s : Scenario) (act : Store → Medium → Store.Outcome Answer) : Answer × Scenario :=
  match s.store with
  | none => (.noStore, s)
  | some (l, store) =>
    let ((answer, store), disk) := s.disk.onFile l fun m =>
      let o := act store m
      ((o.answer, o.store), o.medium)
    (answer, { s with disk, store := some (l, store) })

/-- Asks the store for something that leaves its journal alone. -/
def consult (s : Scenario) (act : Store → Answer × Store) : Answer × Scenario :=
  match s.store with
  | none => (.noStore, s)
  | some (l, store) =>
    let (answer, store) := act store
    (answer, { s with store := some (l, store) })

def ofResult {α : Type} (wrap : α → Answer) : Except Failure α → Answer
  | .error f => .failed f
  | .ok a => wrap a

def mapAnswer {α : Type} (wrap : α → Answer) (o : Store.Outcome α) : Store.Outcome Answer :=
  ⟨wrap o.answer, o.store, o.medium⟩

def addSweeper (s : Scenario) (interval batch : Nat) : Answer × Scenario :=
  match s.store with
  | none => (.noStore, s)
  | some _ =>
    (.done,
      { s with sweepers := s.sweepers ++ [⟨interval, batch, some (s.elapsed + interval)⟩] })

/-- Sweeps for every sweeper whose wait is over. -/
def runSweepers (elapsed : Nat) (now : Millis) : List Sweeper → Store → List Sweeper × Store
  | [], store => ([], store)
  | w :: rest, store =>
    let isDue := w.due.any (· ≤ elapsed)
    let store := if isDue then (store.sweep now w.batch).2 else store
    let w := if isDue then { w with due := some (elapsed + w.interval) } else w
    let (ws, store) := runSweepers elapsed now rest store
    (w :: ws, store)

def advance (s : Scenario) (millis : Nat) : Scenario :=
  { s with clock := s.clock.later (.ofMillis millis), elapsed := s.elapsed + millis }

def endSweepers (s : Scenario) : Scenario :=
  { s with sweepers := s.sweepers.map fun w => { w with due := none } }

/-- Sweepers do what is due, or notice that the store has been closed. -/
def settle (s : Scenario) : Scenario :=
  match s.store with
  | none => s
  | some (l, store) =>
    if store.closed then s.endSweepers
    else
      let (sweepers, store) := runSweepers s.elapsed s.now s.sweepers store
      { s with sweepers, store := some (l, store) }

def pollSweep (s : Scenario) : Answer × Scenario :=
  match s.store, s.sweep with
  | none, _ => (.noStore, s)
  | some _, none => (.noSweep, s)
  | some (l, store), some sweep =>
    match sweep.poll store s.now with
    | (.pending sweep, store) =>
      (.pending, { s with sweep := some sweep, store := some (l, store) })
    | (.finished n, store) => (.count n, { s with sweep := none, store := some (l, store) })

/-- A pass over the journal from its beginning. -/
def records (s : Scenario) : Answer :=
  match s.disk.reader s.path with
  | .error e => .failed (.io (.system e))
  | .ok reader => .items reader.items

def content? (s : Scenario) : Option Bytes := (s.disk.file? s.path).map Prod.snd

def act (s : Scenario) : Step → Answer × Scenario
  | .set key value ttl =>
    s.ask fun store m => mapAnswer (ofResult fun _ => .done) (store.set m s.now key value ttl)
  | .get key => s.consult fun store => (store.get s.now key).map .value id
  | .delete key =>
    s.ask fun store m => mapAnswer (ofResult .truth) (store.delete m s.now key)
  | .contains key => s.consult fun store => (.truth (store.contains s.now key), store)
  | .size => s.consult fun store => (.size store.size store.shelf.isEmpty, store)
  | .stats => s.consult fun store => (.stats store.stats, store)
  | .sweep batch => s.consult fun store => (store.sweep s.now batch).map .count id
  | .beginSweep batch =>
    match s.store with
    | none => (.noStore, s)
    | some _ => (.done, { s with sweep := some (.start batch) })
  | .pollSweep => s.pollSweep
  | .close => s.ask fun store m => mapAnswer (ofResult fun _ => .done) (store.close m)
  | .isClosed => s.consult fun store => (.truth store.closed, store)
  | .crash => (.done, s.crash)
  | .reopen settings => { s with settings }.openStore
  | .records => (s.records, s)
  | .content => (.content s.content?, s)
  | .setClock now => (.done, { s with clock := now })
  | .setOutlook outlook => (.done, { s with disk := { s.disk with outlook } })
  | .appendFreely bytes => (.done, { s with disk := s.disk.appendFreely s.path bytes })
  | .startSweeper interval =>
    s.addSweeper interval ((s.store.map fun (_, store) => store.sweepBatch).getD 1)
  | .spawnSweeper interval batch => s.addSweeper interval batch
  | .advance millis => (.done, s.advance millis)
  | .sweepersEnded => (.truths (s.sweepers.map fun w => w.due.isNone), s)
  | .abortSweepers => (.done, s.endSweepers)
  | .request r =>
    s.ask fun store m => mapAnswer .response (Api.handle store m s.clock r)

/-- One step, after which the sweepers have done what there is to do. -/
def step (s : Scenario) (t : Step) : Answer × Scenario :=
  let (answer, s) := s.act t
  (answer, s.settle)

/-- Keys from the one used last on; none without a store. -/
def keys? (s : Scenario) : Option (List String) :=
  s.store.map fun (_, store) => store.shelf.keysByRecency

end Scenario

end Larder
