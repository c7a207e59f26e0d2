import Telemetry.Agent.Pipeline
import Telemetry.Agent.Courier
/-!
# The schedule of an agent

A schedule runs a pipeline by the clock. Polls begin at once and reports after the first period;
both come round after a period, and one that comes late puts off all that follow. What can happen
happens at its moment, in a fixed order; between these moments nothing does.

## Main definitions

* `Telemetry.Agent.Schedule`: the periods.
* `Telemetry.Agent.Timeline`: a pipeline and its clocks.
* `Telemetry.Agent.Timeline.settle`: all that happens at one moment.
* `Telemetry.Agent.Timeline.advance`, `Telemetry.Agent.Timeline.stop`
-/

namespace Telemetry.Agent

/-- How often an agent polls and reports, in milliseconds, how many deliveries it makes at a time,
and how. -/
structure Schedule where
  poll : Nat
  report : Nat
  limit : Nat
  mode : ReportMode
  deriving DecidableEq, Repr

/-- The world around an agent: what its sources measure at each poll, and who answers. -/
structure Surroundings where
  sources : Nat → List Sampling
  courier : Courier
  peer : Peer

/-- The end of a delivery: when it comes, and whether the delivery is accepted. -/
structure Landing where
  time : Nat
  accepted : Bool
  deriving DecidableEq, Repr

/-- A pipeline and its clocks. -/
structure Timeline where
  pipeline : Pipeline
  schedule : Schedule
  now : Nat := 0
  polls : Nat := 0
  pollDue : Nat := 0
  reportDue : Nat
  /-- The ends of the deliveries of the workers. -/
  landings : List (Option Landing)

namespace Timeline

/-- The start of a schedule. -/
def create (s : Schedule) : Timeline :=
  let pipeline := Pipeline.create s.mode s.limit
  { pipeline, schedule := s, reportDue := s.report, landings := pipeline.workers.map fun _ => none }

/-- When the next round is due after one that came at a moment. -/
def nextDue (due now period : Nat) : Nat := if due < now then now + period else due + period

/-- The timeline after a step of its pipeline, if the step is possible. -/
def take (t : Timeline) (s : Step) : Option Timeline :=
  (t.pipeline.step? s).map fun p => { t with pipeline := p }

/-- The first worker whose delivery ends by now, and whether it is accepted. -/
def landed (t : Timeline) : Option (Nat × Bool) :=
  t.landings.zipIdx.findSome? fun (l, w) =>
    l.bind fun l => if l.time ≤ t.now then some (w, l.accepted) else none

/-- A worker that is done. -/
def finish (t : Timeline) : Option Timeline := do
  let (w, accepted) ← t.landed
  let t ← t.take (.finish w accepted)
  return { t with landings := t.landings.set w none }

/-- A worker that takes a job and begins to deliver it. -/
def dequeue (around : Surroundings) (t : Timeline) : Option Timeline := do
  let w ← t.pipeline.workers.findIdx? Option.isNone
  let t ← t.take (.dequeue w)
  let job ← t.pipeline.job? w
  let e := around.courier.deliver around.peer t.now job.delivery
  let landing : Landing := ⟨t.now + e.time, Courier.accepted e⟩
  return { t with landings := t.landings.set w (some landing) }

/-- A poll that is due. -/
def poll (around : Surroundings) (t : Timeline) : Option Timeline :=
  if t.pollDue ≤ t.now then
    (t.take (.poll (around.sources t.polls))).map fun u =>
      { u with polls := t.polls + 1, pollDue := nextDue t.pollDue t.now t.schedule.poll }
  else none

/-- A report that is due. -/
def report (t : Timeline) : Option Timeline :=
  if t.reportDue ≤ t.now then
    (t.take .report).map fun u =>
      { u with reportDue := nextDue t.reportDue t.now t.schedule.report }
  else none

/-- The first thing that can happen now. The clock comes before the workers, because an answer is
never quite there at the moment at which it is due. -/
def next (around : Surroundings) (t : Timeline) : Option Timeline :=
  t.report <|> t.poll around <|> t.finish <|> t.dequeue around <|> t.take .enqueue

/-- All that happens now, up to a number of steps. -/
def settle (around : Surroundings) : Nat → Timeline → Timeline
  | 0, t => t
  | n + 1, t =>
    match t.next around with
    | none => t
    | some t => settle around n t

/-- The next moment after now at which something is due, if it is not after a limit. -/
def nextMoment (t : Timeline) (limit : Nat) : Option Nat :=
  let ends := t.landings.filterMap fun l => l.map Landing.time
  let polls := if t.pipeline.polling then [t.pollDue] else []
  let reports := if t.pipeline.reporting && t.pipeline.held.isEmpty then [t.reportDue] else []
  ((ends ++ polls ++ reports).filter fun m => t.now < m && m ≤ limit).min?

/-- How many steps happen at one moment at most. -/
def patience : Nat := 1000000

/-- Lets time pass up to a moment, in a number of jumps. -/
def passUntil (around : Surroundings) (limit : Nat) : Nat → Timeline → Timeline
  | 0, t => { t with now := limit }
  | n + 1, t =>
    match t.nextMoment limit with
    | none => { t with now := limit }
    | some m => passUntil around limit n (settle around patience { t with now := m })

/-- Lets some time pass. -/
def advance (around : Surroundings) (t : Timeline) (millis : Nat) : Timeline :=
  passUntil around (t.now + millis) (t.now + millis + 1) t

/-- Stops polls and reports now. -/
def stop (around : Surroundings) (t : Timeline) : Timeline :=
  let t := (t.take .endPolls).getD t
  let t := (t.take .endReports).getD t
  settle around patience t

end Timeline
end Telemetry.Agent
