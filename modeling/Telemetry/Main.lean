import Telemetry.Http.Connection
import Telemetry.Program
/-!
# The command line

`server [settings]` answers the requests that arrive on standard input, on standard output; the
connection is made by whoever starts the program. `agent [settings]` measures, and speaks to its
server in the same way. Both say on standard error what they are doing.
-/

namespace Telemetry.Main

open Program

/-- The file at a path, if there is one. -/
def readFile (path : String) : IO (Option Bytes) := do
  try
    return some (← IO.FS.readBinFile path).toList
  catch _ => return none

/-- The disk with the file at a path, if there is one. -/
def withFile (d : Disk) (path : String) : IO Disk := do
  match ← readFile path with
  | none => return d
  | some b =>
    let p := Path.ofText path
    return ((d.makeDirs p.dropLast).2).set p (.file b)

/-- The variables that settings look at. -/
def readEnvironment (names : List String) : IO Settings.Environment := do
  let values ← names.mapM fun n => do return (n, ← IO.getEnv n)
  return fun n => (values.lookup n).join

/-- Takes a snapshot that has changed over to the file system, first under another name. -/
def publish (path : String) (old new : Option Bytes) : IO Unit := do
  match new with
  | none => return
  | some b =>
    if old = new then return
    let p := Path.ofText path
    let start := if path.toList.head? = some '/' then "/" else ""
    let spell (p : Path) : String := start ++ "/".intercalate p
    unless p.dropLast.isEmpty do IO.FS.createDirAll (spell p.dropLast)
    let draft := spell (Snapshot.temporary p)
    IO.FS.writeBinFile draft ⟨b.toArray⟩
    IO.FS.rename draft path

/-- The snapshot of a server. -/
def snapshotOf (s : Http.Server) (path : String) : Option Bytes :=
  match s.store with
  | .persistent m => m.file.disk.contents (Path.ofText path)
  | _ => none

/-- Says a line of the log. -/
def say (l : Http.LogLine) : IO Unit :=
  IO.eprintln (l.level.word ++ " " ++ l.message ++ match l with
    | .request _ method path _ => " " ++ method ++ " " ++ path
    | .response _ status elapsed _ => " " ++ Integer.text status ++ " " ++ elapsed)

/-- An identity for a request. -/
def newTrace : IO String := do
  let mut bytes : Bytes := []
  for _ in [0:8] do
    bytes := UInt8.ofNat (← IO.rand 0 255) :: bytes
  return Hex.text bytes

/-- Answers requests until there are no more. -/
partial def serve (path : Option String) (buffer : Bytes) (s : Http.Server) : IO Http.Server := do
  match Http.takeRequest buffer with
  | some (r, rest) =>
    let reply := s.respond { trace := ← newTrace } r
    reply.log.forM say
    let out ← IO.getStdout
    out.write ⟨(Http.writeResponse reply.response).toArray⟩
    out.flush
    match path with
    | none => pure ()
    | some p => publish p (snapshotOf s p) (snapshotOf reply.server p)
    serve path rest reply.server
  | none =>
    let more ← (← IO.getStdin).read 65536
    if more.isEmpty then return s else serve path (buffer ++ more.toList) s

/-- Ends a program with a line that says why. -/
def fail (message : String) : IO UInt32 := do
  IO.eprintln ("Error: " ++ message)
  return 1

/-- What a program is started with on this machine. -/
def invocation (arguments : List String) (environment : Settings.Environment) (disk : Disk) :
    Invocation :=
  { arguments, environment, disk
    connect := fun _ => .error .acquire
    canListen := fun _ => true }

/-- The server. -/
def server (arguments : List String) : IO UInt32 := do
  let env ← readEnvironment (ServerSettings.overrides.map Settings.Override.name)
  let disk ← withFile {} (arguments.headD ServerSettings.place)
  let start := invocation arguments env disk
  let path :=
    match ServerSettings.resolve start.file start.asked with
    | .ok settings => (settings.override env).2.snapshotPath
    | .error _ => none
  let disk ← match path with
    | none => pure disk
    | some p => withFile disk p
  match startServer (invocation arguments env disk) with
  | .error message => fail message
  | .ok s =>
    IO.eprintln "HTTP server listening"
    let served ← serve path [] s
    let stopped := stopServer served
    match path with
    | none => pure ()
    | some p => publish p (snapshotOf served p) (snapshotOf stopped p)
    return 0

/-- What this process measures. What it cannot measure is zero. -/
def measure (host : Bool) (started : Nat) : IO (List Agent.Sampling) := do
  let zero := Binary64.ofNat 0
  let now ← IO.monoMsNow
  let level (name : String) : Binary64 :=
    if name = "Uptime" then Binary64.ofNat ((now - started) / 1000)
    else if name = "Threads" || name = "NumCPU" then Binary64.ofNat 1
    else zero
  let steps := 0x40000000
  let drawn ← IO.rand 0 (steps - 1)
  let random := (Binary64.ofNat drawn).div (Binary64.ofNat steps)
  let sampling (s : Catalog.Source) (ms : List Metric) : Agent.Sampling := ⟨s.name, .ok ms⟩
  return [sampling .process (Catalog.process {} (Catalog.processNames.map level)),
    sampling .random (Catalog.random random)] ++
    (if host then [sampling .host (Catalog.host zero zero [zero])] else [])

/-- Sends a request and waits for the status of the response. -/
partial def exchange (host : String) (r : Agent.Outgoing) (buffer : Bytes) :
    IO (Option Agent.Answer × Bytes) := do
  let out ← IO.getStdout
  out.write ⟨(Http.writeRequest host r.target r.headers r.body).toArray⟩
  out.flush
  let rec wait (buffer : Bytes) : IO (Option Agent.Answer × Bytes) := do
    match Http.takeStatus buffer with
    | some (status, body, rest) => return (some ⟨status, body⟩, rest)
    | none =>
      let more ← (← IO.getStdin).read 65536
      if more.isEmpty then return (none, []) else wait (buffer ++ more.toList)
  wait buffer

/-- Measures and delivers until nobody answers any more. -/
partial def deliverAll (settings : AgentSettings) (t : Agent.Courier) (started : Nat)
    (due : Nat) (samples : Agent.Samples) (buffer : Bytes) : IO Unit := do
  let (_, samples) := samples.poll (← measure settings.hostMetrics started)
  let now ← IO.monoMsNow
  let mut samples := samples
  let mut buffer := buffer
  let mut due := due
  if due ≤ now then
    due := now + settings.schedule.report
    let (metrics, taken) := samples.takeReport
    samples := taken
    for job in Agent.plan settings.reportMode metrics do
      let (answer, rest) ← exchange t.base.host (t.request job.delivery) buffer
      buffer := rest
      match answer with
      | none => return
      | some a =>
        unless a.isSuccess do samples := samples.requeue (job.polls.getD 0)
  IO.sleep (UInt32.ofNat settings.schedule.poll)
  deliverAll settings t started due samples buffer

/-- The agent. -/
def agent (arguments : List String) : IO UInt32 := do
  let env ← readEnvironment (AgentSettings.overrides.map Settings.Override.name)
  let disk ← withFile {} (arguments.headD AgentSettings.place)
  match startAgent (invocation arguments env disk) with
  | .error message => fail message
  | .ok (settings, t) =>
    IO.eprintln "Scheduler started"
    let now ← IO.monoMsNow
    deliverAll settings t now (now + settings.schedule.report) {} []
    return 0

end Telemetry.Main

/-- Runs the program that the first argument names. -/
def main (arguments : List String) : IO UInt32 :=
  match arguments with
  | "server" :: rest => Telemetry.Main.server rest
  | "agent" :: rest => Telemetry.Main.agent rest
  | _ => Telemetry.Main.fail "expected server or agent"
