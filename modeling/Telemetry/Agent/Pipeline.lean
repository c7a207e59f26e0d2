import Telemetry.Agent.Report
/-!
# The pipeline of an agent

Polls refresh the samples; reports turn them into jobs; jobs wait in a queue of limited length
until a worker takes them; a worker delivers one job at a time. A report whose jobs do not all fit
into the queue holds the rest and makes no further report meanwhile. A job whose delivery fails
gives its polls back. When the agent is stopped, polls and reports end, each at its own moment, the
jobs that were still held give their polls back, and the workers finish what is in the queue.

The steps are those that can happen at any moment, in any order in which they are possible.

## Main definitions

* `Telemetry.Agent.Pipeline`: the state.
* `Telemetry.Agent.Step`, `Telemetry.Agent.Pipeline.step?`: what happens, and where it can.
* `Telemetry.Agent.Pipeline.run`: any course of events.
-/

namespace Telemetry.Agent

/-- The state of a pipeline. There is a place for each worker, with the job it delivers. -/
structure Pipeline where
  mode : ReportMode
  capacity : Nat
  samples : Samples := {}
  held : List Job := []
  queue : List Job := []
  workers : List (Option Job)
  polling : Bool := true
  reporting : Bool := true
  deriving DecidableEq, Repr

/-- What happens. -/
inductive Step where
  | poll (sources : List Sampling)
  | report
  /-- A held job goes into the queue. -/
  | enqueue
  /-- A worker takes a job out of the queue. -/
  | dequeue (worker : Nat)
  /-- A delivery ends. -/
  | finish (worker : Nat) (delivered : Bool)
  | endPolls
  | endReports

namespace Pipeline

/-- A pipeline at the start, with as many workers as its queue has places, and at least one. -/
def create (mode : ReportMode) (limit : Nat) : Pipeline :=
  { mode, capacity := max limit 1, workers := List.replicate (max limit 1) none }

/-- The job that a worker delivers. -/
def job? (p : Pipeline) (worker : Nat) : Option Job := p.workers[worker]?.join

/-- Is there a worker of this number, and has it nothing to do? -/
def isIdle (p : Pipeline) (worker : Nat) : Bool := p.workers[worker]? == some none

/-- Gives polls back. -/
def requeue (p : Pipeline) (polls : Int64) : Pipeline :=
  { p with samples := p.samples.requeue polls }

/-- A poll. -/
def poll (p : Pipeline) (sources : List Sampling) : Pipeline :=
  { p with samples := (p.samples.poll sources).2 }

/-- A report. Without samples there is none. -/
def report (p : Pipeline) : Pipeline :=
  let (metrics, samples) := p.samples.takeReport
  if metrics.isEmpty then p else { p with samples, held := plan p.mode metrics }

/-- The end of a delivery. A job that was not delivered gives its polls back. -/
def finish (p : Pipeline) (worker : Nat) (job : Job) (delivered : Bool) : Pipeline :=
  let p := { p with workers := p.workers.set worker none }
  match delivered, job.polls with
  | false, some polls => p.requeue polls
  | _, _ => p

/-- The end of reports. The held jobs give their polls back, unless that is no gain. -/
def endReports (p : Pipeline) : Pipeline :=
  let unsent := carriedByAll p.held
  let p := { p with held := [], reporting := false }
  if 0 < unsent then p.requeue unsent else p

/-- What a step leads to; nothing if it is not possible. -/
def step? (p : Pipeline) : Step → Option Pipeline
  | .poll sources => if p.polling then some (p.poll sources) else none
  | .report => if p.reporting && p.held.isEmpty then some p.report else none
  | .enqueue =>
    match p.held with
    | [] => none
    | j :: rest =>
      if p.queue.length < p.capacity then some { p with held := rest, queue := p.queue ++ [j] }
      else none
  | .dequeue w =>
    match p.queue with
    | [] => none
    | j :: rest =>
      if p.isIdle w then
        some { p with queue := rest, workers := p.workers.set w (some j) }
      else none
  | .finish w delivered => (p.job? w).map fun j => p.finish w j delivered
  | .endPolls => if p.polling then some { p with polling := false } else none
  | .endReports => if p.reporting then some p.endReports else none

/-- A course of events; steps that are not possible do not happen. -/
def run (p : Pipeline) (steps : List Step) : Pipeline :=
  steps.foldl (fun p s => (p.step? s).getD p) p

/-- Has everything come to its end? -/
def isDone (p : Pipeline) : Bool :=
  !p.polling && !p.reporting && p.queue.isEmpty && p.workers.all Option.isNone

end Pipeline
end Telemetry.Agent
