import Telemetry.Catalog
/-!
# Samples

An agent keeps the metrics of its last successful poll and the number of polls that no report has
carried yet. A report is the metrics in the order of their names and then a counter with that
number; making one moves the number out. A report that does not arrive gives it back, so every
poll is pending or carried by one report.

## Main definitions

* `Telemetry.Agent.Samples`
* `Telemetry.Agent.Samples.replace`, `Telemetry.Agent.Samples.takeReport`,
  `Telemetry.Agent.Samples.requeue`
* `Telemetry.Agent.Sampling`, `Telemetry.Agent.Samples.poll`: a poll of several sources.
-/

namespace Telemetry.Agent

/-- The metrics of the last successful poll, in the order of their distinct names, and the number
of polls not carried by a report. -/
structure Samples where
  latest : List Metric := []
  pending : Int64 := 0
  deriving DecidableEq, Repr

/-- Places a metric among metrics in the order of their names, in the place of one with its name
if there is one. -/
def place (m : Metric) : List Metric → List Metric
  | [] => [m]
  | e :: es =>
    match compare m.id e.id with
    | .lt => m :: e :: es
    | .eq => m :: es
    | .gt => e :: place m es

/-- What one source measured, or why it measured nothing. -/
structure Sampling where
  source : String
  outcome : Except String (List Metric)

/-- Why a poll failed. -/
inductive PollFault where
  | failed (source cause : String)
  | empty
  deriving DecidableEq, Repr

/-- The wording of a fault. -/
def PollFault.message : PollFault → String
  | .failed source cause => "collector " ++ source ++ " failed: " ++ cause
  | .empty => "no metrics sampled"

/-- What all sources measured, in their order, up to the first that failed. -/
def gather : List Sampling → Except PollFault (List Metric)
  | [] => .ok []
  | s :: rest =>
    match s.outcome with
    | .error cause => .error (.failed s.source cause)
    | .ok ms => (gather rest).map (ms ++ ·)

namespace Samples

/-- Replaces all samples and counts a poll. Of several metrics with one name the last one stays. -/
def replace (s : Samples) (ms : List Metric) : Samples :=
  ⟨ms.foldl (fun es m => place m es) [], s.pending + 1⟩

/-- The metrics to report, and the samples without the number they carry. Before there are any
samples there is nothing to report. -/
def takeReport (s : Samples) : List Metric × Samples :=
  if s.latest.isEmpty then ([], s)
  else (s.latest ++ [⟨Catalog.pollCount, .counter s.pending⟩], { s with pending := 0 })

/-- Takes back polls that a report carried and did not deliver. -/
def requeue (s : Samples) (undelivered : Int64) : Samples :=
  { s with pending := s.pending + undelivered }

/-- Polls all sources. A poll that fails or that finds nothing changes nothing; one that succeeds
tells how much was measured. -/
def poll (s : Samples) (sources : List Sampling) : Except PollFault Nat × Samples :=
  match gather sources with
  | .error f => (.error f, s)
  | .ok [] => (.error .empty, s)
  | .ok ms => (.ok ms.length, s.replace ms)

end Samples
end Telemetry.Agent
