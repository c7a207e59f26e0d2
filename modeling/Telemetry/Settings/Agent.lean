import Telemetry.Agent.Schedule
import Telemetry.Http.Message
import Telemetry.Settings.Source
/-!
# Settings of an agent

## Main definitions

* `Telemetry.AgentSettings`
* `Telemetry.AgentSettings.resolve`, `Telemetry.AgentSettings.override`,
  `Telemetry.AgentSettings.check`
* `Telemetry.AgentSettings.baseAddress`, `Telemetry.AgentSettings.schedule`
-/

namespace Telemetry

open Settings

/-- Settings of an agent. -/
structure AgentSettings where
  /-- The server, with or without a scheme. -/
  serverAddress : String := "localhost:8080"
  /-- The seconds between two polls. -/
  pollInterval : Nat := 2
  /-- The seconds between two reports. -/
  reportInterval : Nat := 10
  /-- How many deliveries are made at a time. -/
  rateLimit : Nat := 4
  /-- The secret of signatures. -/
  hashKey : Option String := none
  reportMode : Agent.ReportMode := .batch
  /-- Is the host measured too? -/
  hostMetrics : Bool := false
  /-- The delays before further attempts at a delivery, in milliseconds. -/
  retryDelays : List Nat := usualDelays
  deriving DecidableEq, Repr

namespace AgentSettings

/-- The settings in a table. -/
def decode (es : Toml.Entries) : Option AgentSettings := do
  let usual : AgentSettings := {}
  return {
    serverAddress := ← field es "server_address" asText usual.serverAddress
    pollInterval := ← field es "poll_interval_secs" asNat usual.pollInterval
    reportInterval := ← field es "report_interval_secs" asNat usual.reportInterval
    rateLimit := ← field es "rate_limit" asNat usual.rateLimit
    hashKey := ← field es "hash_key" (fun i => (asText i).map some) usual.hashKey
    reportMode := ← field es "report_mode" asMode usual.reportMode
    hostMetrics := ← field es "host_metrics" asFlag usual.hostMetrics
    retryDelays := ← field es "retry_delays_ms" asNats usual.retryDelays }

/-- The usual place of the settings. -/
def place : String := "config/agent.toml"

/-- The settings of a file. -/
def resolve (file : String → Option Bytes) (asked : Option String) :
    Except LoadFault AgentSettings :=
  Settings.resolve decode {} file asked place

/-- The variables in the order in which they are looked at. -/
def overrides : List (Override AgentSettings) := [
  ⟨"ADDRESS", fun v s => .ok { s with serverAddress := v }⟩,
  ⟨"POLL_INTERVAL", fun v s => (readNat v).map fun n => { s with pollInterval := n }⟩,
  ⟨"REPORT_INTERVAL", fun v s => (readNat v).map fun n => { s with reportInterval := n }⟩,
  ⟨"KEY", fun v s => .ok { s with hashKey := some v }⟩,
  ⟨"RATE_LIMIT", fun v s => (readNat v).map fun n => { s with rateLimit := n }⟩]

/-- The settings changed by the environment. -/
def override (s : AgentSettings) (env : Environment) : Except VariableFault Unit × AgentSettings :=
  applyAll env overrides s

/-- What is wrong with the settings, if anything is. -/
def check (s : AgentSettings) : Except String Unit :=
  if Text.isBlankText s.serverAddress then .error "server_address must not be empty"
  else if s.pollInterval = 0 || s.reportInterval = 0 then
    .error "poll and report intervals must be positive"
  else if s.rateLimit = 0 then .error "rate_limit must be at least 1"
  else .ok ()

/-- The address of the server with a scheme and without slashes at its end. -/
def baseAddress (s : AgentSettings) : String :=
  let cs := ((Text.trimChars s.serverAddress.toList).reverse.dropWhile (· = '/')).reverse
  if (Http.behindScheme cs).isSome then String.ofList cs else "http://" ++ String.ofList cs

/-- How often the agent polls and reports. -/
def schedule (s : AgentSettings) : Agent.Schedule :=
  { poll := 1000 * s.pollInterval
    report := 1000 * s.reportInterval
    limit := max s.rateLimit 1
    mode := s.reportMode }

end AgentSettings
end Telemetry
