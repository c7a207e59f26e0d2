import Telemetry.Agent.Samples
/-!
# Reports as jobs

A report is delivered in one of three modes: as one document, as one document for each metric, or
as one path for each metric. Each delivery is a job of its own. The job that carries the number of
polls knows it, so that it can be given back if the delivery fails.

## Main definitions

* `Telemetry.Agent.ReportMode`, `Telemetry.Agent.Delivery`, `Telemetry.Agent.Job`
* `Telemetry.Agent.plan`: the jobs of a report.
-/

namespace Telemetry.Agent

/-- How a report is delivered. -/
inductive ReportMode where
  | batch
  | perMetric
  | unary
  deriving DecidableEq, Repr

/-- What is delivered at once. -/
inductive Delivery where
  | document (m : Metric)
  | path (m : Metric)
  | batch (ms : List Metric)
  deriving DecidableEq, Repr

/-- The metrics of a delivery. -/
def Delivery.metrics : Delivery → List Metric
  | .document m => [m]
  | .path m => [m]
  | .batch ms => ms

/-- A delivery and the number of polls it carries, if it carries one. -/
structure Job where
  delivery : Delivery
  polls : Option Int64
  deriving DecidableEq, Repr

/-- The number of polls that a metric counts. -/
def pollsOf (m : Metric) : Option Int64 :=
  match m.value with
  | .counter delta => if m.id = Catalog.pollCount then some delta else none
  | .gauge _ => none

/-- The first number of polls among metrics. -/
def carriedPolls (ms : List Metric) : Option Int64 := ms.findSome? pollsOf

/-- The jobs of a report. -/
def plan (mode : ReportMode) (report : List Metric) : List Job :=
  match mode with
  | .batch => [⟨.batch report, carriedPolls report⟩]
  | .perMetric => report.map fun m => ⟨.document m, pollsOf m⟩
  | .unary => report.map fun m => ⟨.path m, pollsOf m⟩

/-- The number of polls that jobs carry altogether. -/
def carriedByAll (jobs : List Job) : Int64 := (jobs.filterMap Job.polls).foldl (· + ·) 0

end Telemetry.Agent
