import Std.Time.DateTime.Timestamp
import Larder.Server

/-! The server as a program: settings, journal and clock come from the system, lines go to the
output and complaints to the error output. The end of the input is the signal to stop. -/

namespace Larder.Main

def names : List String :=
  ["MAX_ENTRIES", "LOG_PATH", "SWEEP_INTERVAL_MS", "SWEEP_BATCH_SIZE", "DEFAULT_TTL",
    "CORRUPTION_POLICY", "SERVER_PORT", "RUST_LOG"]

def environment : IO Settings.Environment := do
  let pairs ← names.mapM fun name => do return (name, ← IO.getEnv name)
  return fun name => ((pairs.lookup name).bind id).map String.toList

def clock : IO Instant := do
  let now ← Std.Time.Timestamp.now
  return ⟨now.toNanosecondsSinceUnixEpoch.toInt⟩

/-- The disk as far as a run looks at it: what stands at the journal's path. -/
def diskAt (path : String) : IO Disk := do
  let place := (← IO.currentDir) / path
  let p : Path := ⟨utf8 path⟩
  if ← place.isDir then return Disk.empty.addDirectory p
  else if ← place.pathExists then
    return Disk.empty.addFile p (← IO.FS.readBinFile place).toList
  else return Disk.empty

/-- Writes back what a run has made of the journal. -/
def store (path : String) (before after : Disk) : IO Unit := do
  let p : Path := ⟨utf8 path⟩
  match after.file? p with
  | none => return
  | some (l, bytes) =>
    if (before.file? p).map Prod.snd = some bytes then return
    let place := (← IO.currentDir) / path
    if 1 < l.length then place.parent.forM IO.FS.createDirAll
    IO.FS.writeBinFile place ⟨bytes.toArray⟩

def waitForEnd : IO Unit := do
  let _ ← (← IO.getStdin).readToEnd

def run : IO UInt32 := do
  let env ← environment
  let path := (Settings.ofEnvironment env).journalPath
  let before ← diskAt path
  waitForEnd
  let run := Server.run env (← clock).millis .terminate before
  store path before run.disk
  for line in Server.visibleLines env run do
    IO.println line
  IO.eprint run.complaint
  return UInt32.ofNat run.exitCode

end Larder.Main

def main : IO UInt32 := Larder.Main.run
