import Telemetry.Proofs.Agent.Ledger
import Telemetry.Proofs.Agent.Requests
import Telemetry.Proofs.Store.Counting

/-!
# Agents and servers across a network

The workers of an agent deliver their jobs to a server through a network that may lose a request
before the server has it, lose the response after the server has answered, or bring a request so
late that nobody waits for it any more. A worker that hears nothing sends the request again, until
the courier makes no further attempt; then the delivery has failed.

The events are those that can happen at any moment, in any order in which they are possible.

## Main definitions

* `Telemetry.Agent.Line` — an agent and a server at the two ends of a network
* `Telemetry.Agent.Line.counted` — what the server has counted
* `Telemetry.Agent.Event`, `Telemetry.Agent.Line.run` — any course of events
* `Telemetry.Agent.Courier.replay` — a delivery of which some answers have been heard

## Main results

* `Telemetry.Agent.Courier.replay_spec` — when a delivery has ended, and how
-/

namespace Telemetry.Agent

/-! ### Agents and servers -/

/-- Where a worker is with an attempt at its job. -/
inductive Attempt where
  | unsent
  | sent
  | answered (a : Answer)

/-- What a worker has heard of its attempts so far, which is nothing when one was given up, and
where it is with the next one. -/
structure Attempts where
  heard : List (Option Answer) := []
  current : Attempt := .unsent

/-- An agent and a server at the two ends of a network. -/
structure Line where
  ledger : Ledger
  server : Http.Server
  attempts : ℕ → Attempts := fun _ => {}
  /-- The jobs of the requests that are still on their way when nobody waits for the response. -/
  adrift : List Job := []
  /-- The jobs of the requests that the server has counted and nobody will hear of, be it that the
  answer is lost or that it is not one of success. -/
  echoes : List Job := []

/-- What happens between an agent and a server. -/
inductive Event where
  /-- A step of the pipeline. A delivery ends by what is heard, not by itself. -/
  | step (s : Step)
  /-- A worker sends the request of its job. -/
  | send (w : ℕ)
  /-- The server answers the request that a worker has sent. -/
  | reach (w : ℕ) (o : Http.Occasion)
  /-- The response reaches the worker. -/
  | hear (w : ℕ)
  /-- The worker waits no longer: its connection has failed or it has run out of time. -/
  | giveUp (w : ℕ)
  /-- The server answers a request for which nobody waits any more. -/
  | arrive (i : ℕ) (o : Http.Occasion)

/-- The delivery that a courier makes if these are the answers to its attempts, and all. -/
def Courier.replay (t : Courier) (d : Delivery) (heard : List (Option Answer)) :
    Ended DeliveryFault Bytes ℕ :=
  t.deliver (fun made _ _ => heard[made]?.join) 0 d

namespace Line

/-- The job that a worker delivers. -/
def job? (l : Line) (w : ℕ) : Option Job := l.ledger.pipeline.job? w

/-- The number of polls that the server has counted. -/
def counted (l : Line) : ℤ := l.server.store.count Catalog.pollCount

/-- The server answers the request of a job. If it has counted the polls of the job, but cut the
request off before it could answer with success, nobody will hear of that. -/
def answer (l : Line) (t : Courier) (j : Job) (o : Http.Occasion) : Answer × Line :=
  let reply := l.server.respond o (t.request j.delivery).received
  let a : Answer := ⟨reply.response.status, reply.response.body⟩
  let told := a.isSuccess ∨ reply.server.store.count Catalog.pollCount = l.counted
  (a, { l with
    server := reply.server
    echoes := if told then l.echoes else j :: l.echoes })

/-- Nobody will hear of an answer. If it is one of success, the server has counted all the same. -/
def echo (l : Line) (j : Job) (a : Answer) : Line :=
  if a.isSuccess then { l with echoes := j :: l.echoes } else l

/-- A worker hears of its attempt, or that nothing came of it. If the courier makes no further
attempt, the delivery ends. -/
def hear (l : Line) (t : Courier) (w : ℕ) (j : Job) (answer? : Option Answer) : Line :=
  let heard := (l.attempts w).heard ++ [answer?]
  let e := t.replay j.delivery heard
  if e.state ≤ heard.length then
    { l with
      ledger := l.ledger.next (.finish w (Courier.accepted e))
      attempts := Function.update l.attempts w {} }
  else { l with attempts := Function.update l.attempts w { heard } }

/-- What an event leads to; one that is not possible does not happen. -/
def next (t : Courier) (l : Line) : Event → Line
  | .step (.finish _ _) => l
  | .step s => { l with ledger := l.ledger.next s }
  | .send w =>
    match l.job? w, (l.attempts w).current with
    | some _, .unsent =>
      { l with attempts := Function.update l.attempts w { l.attempts w with current := .sent } }
    | _, _ => l
  | .reach w o =>
    match l.job? w, (l.attempts w).current with
    | some j, .sent =>
      let (a, l) := l.answer t j o
      { l with
        attempts := Function.update l.attempts w { l.attempts w with current := .answered a } }
    | _, _ => l
  | .hear w =>
    match l.job? w, (l.attempts w).current with
    | some j, .answered a => l.hear t w j (some a)
    | _, _ => l
  | .giveUp w =>
    match l.job? w, (l.attempts w).current with
    | some j, .sent => { l with adrift := j :: l.adrift }.hear t w j none
    | some j, .answered a => (l.echo j a).hear t w j none
    | _, _ => l
  | .arrive i o =>
    match l.adrift[i]? with
    | some j =>
      let (a, l) := l.answer t j o
      { l with adrift := l.adrift.eraseIdx i }.echo j a
    | none => l

/-- A line after any course of events. -/
def run (t : Courier) (l : Line) (events : List Event) : Line := events.foldl (next t) l

/-- A line at the start. -/
def create (mode : ReportMode) (limit : ℕ) (server : Http.Server) : Line :=
  { ledger := .create mode limit, server }

end Line

/-! ### Workers -/

namespace Pipeline

variable {p q : Pipeline} {s : Step} {w : ℕ} {j : Job}

theorem mem_underWay_of_job? (h : p.job? w = some j) : j ∈ p.underWay :=
  (underWay_finish h).mem_iff.mpr List.mem_cons_self

theorem lt_of_job? (h : p.job? w = some j) : w < p.workers.length :=
  (List.getElem?_eq_some_iff.mp (Option.join_eq_some_iff.mp h)).1

/-- Of all steps but the end of a delivery, only one changes a worker: it takes a job, and it had
nothing to do. -/
theorem workers_of_step (h : p.step? s = some q) (hs : ∀ w delivered, s ≠ .finish w delivered) :
    q.workers = p.workers ∨ ∃ w j, s = .dequeue w ∧ p.workers[w]? = some none ∧
      q.workers = p.workers.set w (some j) := by
  cases happens_of_step? h with
  | poll _ => exact .inl rfl
  | report _ _ =>
    left
    simp only [Pipeline.report]
    split <;> rfl
  | enqueue _ => exact .inl rfl
  | @dequeue w j rest _ hidle => exact .inr ⟨w, j, rfl, hidle, rfl⟩
  | @finish w j delivered _ => exact absurd rfl (hs w delivered)
  | endPolls _ => exact .inl rfl
  | endReports _ =>
    left
    simp only [Pipeline.endReports]
    split <;> rfl

theorem workers_finish (p : Pipeline) (w : ℕ) (j : Job) (delivered : Bool) :
    (p.finish w j delivered).workers = p.workers.set w none := by
  rw [Pipeline.finish.eq_def]
  dsimp only
  split <;> rfl

end Pipeline

namespace Ledger

variable {l : Ledger} {s : Step} {w : ℕ} {j : Job}

/-- All steps but the end of a delivery leave workers their jobs, and nothing is delivered. -/
theorem next_of_ne_finish (hs : ∀ w delivered, s ≠ .finish w delivered) :
    (l.next s).delivered = l.delivered ∧
      (l.next s).pipeline.workers.length = l.pipeline.workers.length ∧
      ∀ w, (l.next s).pipeline.job? w = l.pipeline.job? w ∨ l.pipeline.job? w = none := by
  rw [Ledger.next.eq_def]
  split
  · exact ⟨rfl, rfl, fun w => .inl rfl⟩
  · rename_i q h
    have haccepted : l.pipeline.accepted s = [] := by
      cases s with
      | finish w delivered => exact absurd rfl (hs w delivered)
      | _ => rfl
    refine ⟨by rw [haccepted, List.append_nil], ?_⟩
    rcases Pipeline.workers_of_step h hs with hsame | ⟨u, j, -, hidle, hset⟩
    · refine ⟨congrArg List.length hsame, fun w => .inl ?_⟩
      rw [Pipeline.job?, Pipeline.job?, hsame]
    · refine ⟨by rw [hset, List.length_set], fun w => ?_⟩
      by_cases hw : w = u
      · subst hw
        exact .inr (by rw [Pipeline.job?, hidle]; rfl)
      · left
        rw [Pipeline.job?, Pipeline.job?, hset, List.getElem?_set_ne (Ne.symm hw)]

/-- The end of a delivery takes its job from one worker. -/
theorem next_finish (h : l.pipeline.job? w = some j) (delivered : Bool) :
    (l.next (.finish w delivered)).delivered = l.delivered ++ (if delivered then [j] else []) ∧
      (l.next (.finish w delivered)).pipeline.workers = l.pipeline.workers.set w none := by
  have hstep : l.pipeline.step? (.finish w delivered) = some (l.pipeline.finish w j delivered) := by
    rw [Pipeline.step?, h]
    rfl
  simp only [Ledger.next, hstep]
  refine ⟨?_, l.pipeline.workers_finish w j delivered⟩
  cases delivered with
  | false => rfl
  | true =>
    rw [Pipeline.accepted, h]
    rfl

end Ledger

namespace Line

variable {t : Courier} {l : Line}

theorem next_step {s : Step} (hfinish : ∀ w delivered, s ≠ .finish w delivered) :
    l.next t (.step s) = { l with ledger := l.ledger.next s } := by
  cases s with
  | finish w delivered => exact absurd rfl (hfinish w delivered)
  | _ => rfl

/-- An answer that nobody hears of changes nothing about the agent. -/
theorem echo_frame (l : Line) (j : Job) (a : Answer) :
    (l.echo j a).ledger = l.ledger ∧ (l.echo j a).attempts = l.attempts := by
  rw [Line.echo]
  split <;> exact ⟨rfl, rfl⟩

end Line

/-! ### When a delivery has ended -/

namespace Courier

variable {heard : List (Option Answer)}

/-- **When a delivery has ended, and how.** It has ended with success when that is what is heard
last. Otherwise it has ended when there have been as many attempts as the courier makes. -/
theorem replay_spec (t : Courier) (d : Delivery) (hfail : ∀ a ∈ heard, accepts a = false)
    (hlength : heard.length ≤ t.backoff.delays.length) (answer? : Option Answer) :
    let e := t.replay d (heard ++ [answer?])
    accepted e = accepts answer? ∧
      e.state = if accepts answer? then heard.length + 1 else t.backoff.maxAttempts := by
  have hbefore : ∀ i < heard.length, accepts (heard ++ [answer?])[i]?.join = false := by
    intro i hi
    rw [List.getElem?_append_left hi, List.getElem?_eq_getElem hi]
    exact hfail _ (List.getElem_mem hi)
  have hlast : (heard ++ [answer?])[heard.length]?.join = answer? := by
    rw [List.getElem?_concat_length]
    rfl
  have hafter : ∀ i, heard.length < i → accepts (heard ++ [answer?])[i]?.join = false := by
    intro i hi
    rw [List.getElem?_eq_none (by simpa using Nat.succ_le_of_lt hi)]
    rfl
  obtain ⟨j, ⟨hj, hleast⟩, hdeliver⟩ :=
    t.deliver_eq_first (fun made _ _ => (heard ++ [answer?])[made]?.join) 0 d
  simp only [replay, hdeliver, accepted_returned]
  cases haccepts : accepts answer? with
  | true =>
    have hle : j ≤ heard.length := hleast (.inr (by rw [hlast, haccepts]))
    have hge : heard.length ≤ j := by
      rcases hj with rfl | hj
      · exact hlength
      · by_contra hlt
        rw [hbefore j (Nat.lt_of_not_le hlt)] at hj
        cases hj
    obtain rfl : j = heard.length := Nat.le_antisymm hle hge
    exact ⟨by rw [hlast, haccepts], rfl⟩
  | false =>
    have hall : accepts (heard ++ [answer?])[j]?.join = false := by
      rcases Nat.lt_trichotomy j heard.length with hlt | rfl | hgt
      · exact hbefore j hlt
      · rw [hlast, haccepts]
      · exact hafter j hgt
    refine ⟨hall, ?_⟩
    rcases hj with rfl | hj
    · rfl
    · rw [hall] at hj
      cases hj

/-- A delivery that has ended with success has heard of one. -/
theorem exists_of_accepted_replay {t : Courier} {d : Delivery}
    (h : accepted (t.replay d heard) = true) : ∃ a, some a ∈ heard ∧ a.isSuccess = true := by
  obtain ⟨j, -, hdeliver⟩ := t.deliver_eq_first (fun made _ _ => heard[made]?.join) 0 d
  rw [replay, hdeliver, accepted_returned, accepts, Option.any_eq_true] at h
  obtain ⟨a, ha, hsuccess⟩ := h
  exact ⟨a, List.mem_of_getElem? (Option.join_eq_some_iff.mp ha), hsuccess⟩

end Courier

end Telemetry.Agent
