import Larder.Recovery
import Larder.Trace

/-! A run of the server from start to stop: settings from the environment, a store from its
journal, requests until a signal comes, and the journal closed. A run that cannot begin says why
on the error output and ends with 1. Everything is told as events, of which a filter lets some
be seen. -/

namespace Larder.Server

inductive Signal
  | terminate
  | interrupt
  deriving DecidableEq, Repr

def Signal.name : Signal → String
  | .terminate => "SIGTERM"
  | .interrupt => "Ctrl+C"

/-- What a run leaves behind. -/
structure Run where
  exitCode : Nat
  complaint : String
  events : List Trace.Event
  disk : Disk

def event (level : Trace.Level) (target message : String) (fields : List (String × String)) :
    Trace.Event :=
  ⟨level, target, message, fields⟩

def tell (message : String) : Trace.Event := event .info "durable_cache" message []

def listenerTarget : String := "axum::serve"

def journalTarget : String := "durable_cache::persistence::log"

def recoveryTarget : String := "durable_cache::persistence::recovery"

def storeTarget : String := "durable_cache::cache::engine"

/-- What the listener tells when it is asked to stop and nobody is being served. -/
def listenerEvents : List Trace.Event :=
  ["received graceful shutdown signal. Telling tasks to shutdown",
    "signal received, not accepting new connections",
    "waiting for 0 task(s) to finish"].map fun message => event .trace listenerTarget message []

def ttlText : Option Duration → String
  | none => "None"
  | some ttl => "Some(" ++ toString (ttl.nanos / 1000000000) ++ "s)"

def settingsText (s : Settings) : String :=
  "Configuration loaded: max_entries=" ++ toString s.maxEntries
    ++ ", log_path=" ++ s.journalPath
    ++ ", sweep_interval=" ++ toString s.sweepInterval.millis ++ "ms"
    ++ ", default_ttl=" ++ ttlText s.defaultTtl
    ++ ", corruption_policy=" ++ s.policy.name
    ++ ", port=" ++ toString s.port

/-- What is told about a line that is left out. -/
def skipped? : Journal.Item → Option Trace.Event
  | .error (.corruptLine number reason) =>
    some (event .warn recoveryTarget "Skipping corrupt log record"
      [("line", toString number), ("reason", reason.message)])
  | _ => none

/-- What is told while a journal is replayed. -/
def replayEvents (policy : Policy) (items : List Journal.Item) : List Trace.Event :=
  match policy with
  | .strict => []
  | .skip => items.filterMap skipped?

/-- What is told about the bytes that are cut off a journal. -/
def openEvents (path : String) (dropped : Nat) : List Trace.Event :=
  (if dropped = 0 then []
    else
      [event .warn journalTarget "Durable log ends with a partial record, truncating it"
        [("path", path), ("dropped_bytes", toString dropped)]])
    ++ [event .debug journalTarget "Durable log opened for append" [("path", path)]]

def recoveredEvent (path : String) (r : Recovered) : Trace.Event :=
  event .info recoveryTarget "Recovered cache from durable log"
    [("path", path),
      ("records", toString r.tally.read),
      ("live", toString r.store.size),
      ("expired", toString r.tally.expired),
      ("corrupt", toString r.tally.corrupt),
      ("evicted", toString r.tally.evictions)]

/-- An error and its causes, which are numbered if there is more than one. -/
def complaintText (context : String) (causes : List String) : String :=
  let line : String × Nat → String := fun (cause, i) =>
    match causes with
    | [_] => "    " ++ cause ++ "\n"
    | _ => "    " ++ toString i ++ ": " ++ cause ++ "\n"
  "Error: " ++ context ++ "\n\nCaused by:\n" ++ String.join (causes.zipIdx.map line)

/-- A failure and what caused it. -/
def causesOf : Failure → List String
  | .io cause => [(Failure.io cause).message, cause.message]
  | f => [f.message]

/-- The items of a journal, as far as it can be read. -/
def itemsAt (d : Disk) (p : Path) : List Journal.Item :=
  match d.reader p with
  | .error _ => []
  | .ok reader => reader.items

def sizeAt (d : Disk) (p : Path) : Nat := ((d.file? p).map fun (_, bs) => bs.length).getD 0

/-- From the first request to the last event; the journal is closed at the end. -/
def serve (path : String) (port : Nat) (signal : Signal) (l : Location) (r : Recovered)
    (d : Disk) : Except String Unit × List Trace.Event × Disk :=
  let begun :=
    [tell ("Recovery complete: " ++ toString r.tally.read ++ " records replayed, "
        ++ toString r.tally.corrupt ++ " corrupt lines skipped"),
      tell ("Server listening on http://0.0.0.0:" ++ toString port),
      tell ("Received " ++ signal.name ++ ", initiating shutdown...")] ++ listenerEvents
  let (closed, d) := d.onFile l fun m =>
    let o := r.store.close m
    (o.answer, o.medium)
  match closed with
  | .error f =>
    (.error (complaintText "failed to close durable log" (causesOf f)), begun, d)
  | .ok _ =>
    (.ok (),
      begun ++
        [event .debug journalTarget "Durable log closed" [("path", path)],
          event .info storeTarget "Cache engine closed" [("path", path)],
          tell "Server shutdown complete"], d)

/-- A run with settings that have been read. -/
def runWith (settings : Settings) (now : Millis) (signal : Signal) (d : Disk) : Run :=
  let path := settings.journalPath
  let p : Path := ⟨utf8 path⟩
  let start := [tell "Starting Durable Cache server"]
  match settings.objection? with
  | some o =>
    ⟨1, complaintText "invalid configuration" (causesOf (.invalid o)), start, d⟩
  | none =>
    let start := start ++ [tell (settingsText settings)]
      ++ replayEvents settings.policy (itemsAt d p)
    match d.load p settings now with
    | (.error f, d') =>
      ⟨1, complaintText ("failed to recover from " ++ path) (causesOf f), start, d'⟩
    | (.ok (l, r), d') =>
      let start := start ++ openEvents path (sizeAt d p - sizeAt d' p) ++ [recoveredEvent path r]
      match serve path settings.port signal l r d' with
      | (.error complaint, events, d) => ⟨1, complaint, start ++ events, d⟩
      | (.ok _, events, d) => ⟨0, "", start ++ events, d⟩

/-- The filter the environment asks for. -/
def filterOf (env : Settings.Environment) : Trace.Filter :=
  ((env "RUST_LOG").bind Trace.Filter.parse?).getD .default

def run (env : Settings.Environment) (now : Millis) (signal : Signal) (d : Disk) : Run :=
  runWith (.ofEnvironment env) now signal d

/-- The lines of a run that can be seen. -/
def visibleLines (env : Settings.Environment) (r : Run) : List String :=
  (r.events.filter (filterOf env).shows).flatMap Trace.Event.lines

end Larder.Server
