import Telemetry.Http.Server
import Telemetry.Settings.Agent
import Telemetry.Settings.Server
/-!
# Starting and stopping

What the two programs do before they are up and after they have been told to stop. Both take their
settings from the file named by their first argument or from the usual one, and then from the
environment. Whatever goes wrong on the way ends the program with one line.

## Main definitions

* `Telemetry.Program.Invocation`: what a program is started with.
* `Telemetry.Program.startServer`, `Telemetry.Program.stopServer`
* `Telemetry.Program.startAgent`
-/

namespace Telemetry.Program

/-- What a program is started with. -/
structure Invocation where
  arguments : List String
  environment : Settings.Environment
  disk : Disk
  /-- What comes of connecting to a database. -/
  connect : String → Except DbFailure Session
  /-- Can a server listen at an address? -/
  canListen : String → Bool

namespace Invocation

/-- The file of a path. -/
def file (i : Invocation) (path : String) : Option Bytes := i.disk.contents (Path.ofText path)

/-- The settings file that was asked for. -/
def asked (i : Invocation) : Option String := i.arguments.head?

end Invocation

/-- The line that a fault ends a program with. -/
def ending {ε α : Type} (message : ε → String) : Except ε α → Except String α :=
  Except.mapError message

/-- A server that is up. -/
def startServer (i : Invocation) : Except String Http.Server := do
  let settings ← ending Settings.LoadFault.message (ServerSettings.resolve i.file i.asked)
  let (overridden, settings) := settings.override i.environment
  ending Settings.VariableFault.name overridden
  settings.check
  let store ← ending (fun _ => "opening storage") (Store.openWith settings.store i.disk i.connect)
  if i.canListen settings.address then
    return {
      store
      key := SigningKey.ofSecret settings.hashKey
      timeout := settings.requestTimeout
      askable := store matches .database _ }
  else throw ("binding " ++ settings.address)

/-- A server that has stopped. What is saved at intervals is saved once more. -/
def stopServer (s : Http.Server) : Http.Server :=
  match s.store with
  | .persistent m =>
    match m.policy with
    | .every _ => { s with store := .persistent (SaveTimer.stop m) }
    | .immediate => s
  | _ => s

/-- An agent that is up: its settings, and where it delivers to. -/
def startAgent (i : Invocation) : Except String (AgentSettings × Agent.Courier) := do
  let settings ← ending Settings.LoadFault.message (AgentSettings.resolve i.file i.asked)
  let (overridden, settings) := settings.override i.environment
  ending Settings.VariableFault.name overridden
  settings.check
  let courier ← ending Agent.AddressFault.message
    (Agent.Courier.connect settings.baseAddress (SigningKey.ofSecret settings.hashKey)
      ⟨settings.retryDelays⟩)
  return (settings, courier)

end Telemetry.Program
