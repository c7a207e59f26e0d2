import Telemetry.Proofs.Agent.Credit
import Telemetry.Proofs.Agent.Network
import Mathlib.Algebra.BigOperators.Ring.Finset

/-!
# Polls across a network

A server cannot tell a request from its repetition. So what it has counted is what was delivered,
what is about to be heard of, and what nobody will hear of. The polls cover the first two, however
requests are lost, sent again and given back. The third comes on top: each response that is lost
may count its polls once more, and so may each request that is cut off in front of a file.

## Main definitions

* `Telemetry.Agent.Line.balance` — what the server should have counted
* `Telemetry.Agent.Line.Sound` — the invariant of a line

## Main results

* `Telemetry.Agent.Line.Sound.hear` — a worker hears of its attempt
* `Telemetry.Agent.Line.Sound.next` — one event
* `Telemetry.Agent.Line.polls_counted` — any course of events
* `Telemetry.Agent.Line.polls_counted_twice` — three ways to count a poll twice
-/

namespace Telemetry.Agent

open Finset (range)

/-- Has the server counted what was sent? -/
def Attempt.isCounted : Attempt → Bool
  | .answered a => a.isSuccess
  | _ => false

/-- No event has a poll whose sources measure what a server takes for the counter of polls. -/
def Event.IsClear : Event → Prop
  | .step s => s.IsClear
  | _ => True

namespace Line

/-- The job of a worker, if the server has counted it and the response is on its way. -/
def due (l : Line) (w : ℕ) : List Job :=
  if (l.attempts w).current.isCounted then (l.job? w).toList else []

/-- What the server should have counted: the polls that were delivered, those that are about to be
heard of, and those that nobody will hear of. -/
def balance (l : Line) : ℤ :=
  carried l.ledger.delivered + ∑ w ∈ range l.ledger.pipeline.workers.length, carried (l.due w) +
    carried l.echoes

/-- What the server stood at in the beginning, going by the books. -/
def opening (l : Line) : ℤ := l.counted - l.balance

end Line

/-! ### One event -/

namespace Line

variable {t : Courier} {l : Line} {w : ℕ} {j : Job}

/-- What a worker has heard is no success, and leaves the courier another attempt. Without a job
nothing is sent. -/
structure GoesOn (t : Courier) (job? : Option Job) (x : Attempts) : Prop where
  failing : ∀ a ∈ x.heard, accepts a = false
  few : x.heard.length ≤ t.backoff.delays.length
  idle : job? = none → x.current = .unsent

/-- What holds of a line at any time: the polls cover what was delivered, the store can be relied
on, all requests tell of what their jobs carry, and no delivery that goes on should have ended. -/
structure Sound (t : Courier) (l : Line) : Prop where
  covered : l.ledger.Covered
  reliable : l.server.store.Reliable
  adrift : ∀ j ∈ l.adrift, j.Tells
  workers : ∀ w, GoesOn t (l.job? w) (l.attempts w)

theorem Sound.tells (hl : l.Sound t) (hj : l.job? w = some j) : j.Tells :=
  hl.covered.clear.jobs j (Pipeline.mem_underWay_of_job? hj)

/-- What is due from all workers when it changes for one of them. -/
theorem sum_due {n : ℕ} (hw : w < n) {f g : ℕ → List Job} (h : ∀ x ≠ w, g x = f x) :
    ∑ x ∈ range n, carried (g x)
      = ∑ x ∈ range n, carried (f x) - carried (f w) + carried (g w) := by
  have hmem : w ∈ range n := Finset.mem_range.mpr hw
  have hrest : ∑ x ∈ (range n).erase w, carried (g x) = ∑ x ∈ (range n).erase w, carried (f x) :=
    Finset.sum_congr rfl fun x hx => by rw [h x (Finset.ne_of_mem_erase hx)]
  rw [← Finset.add_sum_erase _ _ hmem, ← Finset.add_sum_erase _ (fun x => carried (f x)) hmem,
    hrest]
  ring

/-- When the server has answered, only the echoes may have changed in the books. -/
theorem balance_answer (l : Line) (t : Courier) (j : Job) (o : Http.Occasion) :
    (l.answer t j o).2.balance
      = l.balance - carried l.echoes + carried (l.answer t j o).2.echoes := by
  rw [balance, balance]
  show carried l.ledger.delivered + ∑ w ∈ range l.ledger.pipeline.workers.length,
    carried (l.due w) + carried (l.answer t j o).2.echoes = _
  ring

/-- **The server counts what it answers with success**, whoever waits for the answer. What it counts
and does not answer with success goes to the echoes. -/
theorem answer_spec (hs : l.server.store.Reliable) (ht : t.base.IsRoot) (hj : j.Tells)
    (o : Http.Occasion) :
    (l.answer t j o).2.server.store.Reliable ∧ (l.answer t j o).2.opening
      = l.opening + if (l.answer t j o).1.isSuccess then j.carried else 0 := by
  obtain ⟨-, hadds⟩ := Http.Server.respond_delivery hs ht o j.delivery
  have hsuccess : (l.answer t j o).1.isSuccess = true ↔ _ := Http.isSuccess_iff _
  refine ⟨hadds.reliable, ?_⟩
  have hechoes : (l.answer t j o).2.echoes = if (l.answer t j o).1.isSuccess ∨
      (l.answer t j o).2.counted = l.counted then l.echoes else j :: l.echoes := rfl
  rw [opening, opening, balance_answer, hechoes]
  by_cases hanswer : (l.answer t j o).1.isSuccess = true
  · have hcounted : (l.answer t j o).2.counted = l.counted + j.carried := by
      rw [← hj.sum]
      exact hadds.success (hsuccess.mp hanswer) Catalog.pollCount
    rw [if_pos (.inl hanswer), if_pos hanswer, hcounted]
    ring
  · rw [if_neg hanswer]
    by_cases hsame : (l.answer t j o).2.counted = l.counted
    · rw [if_pos (.inr hsame), hsame]
      ring
    · -- the request was cut off when the table had it already
      have hcounted : (l.answer t j o).2.counted = l.counted + j.carried := by
        have hfailed := mt hsuccess.mpr hanswer
        rcases hadds.failure hfailed Catalog.pollCount hj.last with hkept | ⟨-, hall⟩
        · exact absurd hkept hsame
        · rw [← hj.sum]
          exact hall
      rw [if_neg (not_or.mpr ⟨hanswer, hsame⟩), carried_cons, hcounted]
      ring

theorem carried_due (hj : l.job? w = some j) :
    carried (l.due w) = if (l.attempts w).current.isCounted then j.carried else 0 := by
  rw [due, hj]
  cases (l.attempts w).current.isCounted <;> simp

/-- A worker is somewhere else with its attempts, and its delivery may have ended. -/
theorem Sound.change (hl : l.Sound t) (hj : l.job? w = some j) {ledger : Ledger} {x : Attempts}
    (hcovered : ledger.Covered)
    (hlength : ledger.pipeline.workers.length = l.ledger.pipeline.workers.length)
    (hjob : ∀ u ≠ w, ledger.pipeline.job? u = l.job? u)
    (hx : GoesOn t (ledger.pipeline.job? w) x) :
    let l' : Line := { l with ledger, attempts := Function.update l.attempts w x }
    l'.Sound t ∧ l'.balance = l.balance - carried (l.due w) + carried (l'.due w)
      + (carried ledger.delivered - carried l.ledger.delivered) := by
  intro l'
  have hother : ∀ u ≠ w, l'.attempts u = l.attempts u :=
    fun u hu => Function.update_of_ne hu x l.attempts
  constructor
  · refine ⟨hcovered, hl.reliable, hl.adrift, fun u => ?_⟩
    by_cases h : u = w
    · rw [h, show l'.attempts w = x from Function.update_self w x l.attempts]
      exact hx
    · rw [hother u h, show l'.job? u = l.job? u from hjob u h]
      exact hl.workers u
  · have hdue := sum_due (Pipeline.lt_of_job? hj) (f := l.due) (g := l'.due) fun u hu => by
      rw [due, due, hother u hu, show l'.job? u = l.job? u from hjob u hu]
    rw [balance, balance]
    show carried ledger.delivered + ∑ u ∈ range ledger.pipeline.workers.length, carried (l'.due u)
      + carried l.echoes = _
    rw [hlength, hdue]
    ring

/-- A worker goes on with its job. -/
theorem Sound.update (hl : l.Sound t) (hj : l.job? w = some j) {x : Attempts}
    (hfail : ∀ a ∈ x.heard, accepts a = false) (hfew : x.heard.length ≤ t.backoff.delays.length) :
    let l' : Line := { l with attempts := Function.update l.attempts w x }
    l'.Sound t ∧ l'.balance
      = l.balance - carried (l.due w) + if x.current.isCounted then j.carried else 0 := by
  intro l'
  have hbusy : l.job? w = none → x.current = .unsent := fun hnone => by
    cases hnone.symm.trans hj
  obtain ⟨hsound, hbalance⟩ :=
    hl.change hj hl.covered rfl (fun _ _ => rfl) ⟨hfail, hfew, hbusy⟩
  have hdue : carried (l'.due w) = if x.current.isCounted then j.carried else 0 := by
    rw [carried_due (l := l') hj, show l'.attempts w = x from Function.update_self w x l.attempts]
  refine ⟨hsound, hbalance.trans ?_⟩
  rw [sub_self, add_zero]
  exact congrArg (l.balance - carried (l.due w) + ·) hdue

/-- The delivery of a worker ends. -/
theorem Sound.finish (hl : l.Sound t) (hj : l.job? w = some j) (delivered : Bool) :
    let l' : Line := { l with
      ledger := l.ledger.next (.finish w delivered)
      attempts := Function.update l.attempts w {} }
    l'.Sound t ∧
      l'.balance = l.balance - carried (l.due w) + if delivered then j.carried else 0 := by
  intro l'
  obtain ⟨hdelivered, hworkers⟩ := Ledger.next_finish hj delivered
  have hlength : (l.ledger.next (.finish w delivered)).pipeline.workers.length
      = l.ledger.pipeline.workers.length := by
    rw [hworkers, List.length_set]
  have hjob : ∀ u ≠ w, (l.ledger.next (.finish w delivered)).pipeline.job? u = l.job? u := by
    intro u hu
    rw [Pipeline.job?, hworkers, List.getElem?_set_ne (Ne.symm hu)]
    rfl
  have hcovered : (l.ledger.next (.finish w delivered)).Covered := hl.covered.next trivial
  obtain ⟨hsound, hbalance⟩ := hl.change (x := {}) hj hcovered hlength hjob
    ⟨List.forall_mem_nil _, Nat.zero_le _, fun _ => rfl⟩
  have hdue : carried (l'.due w) = 0 := by
    rw [due, show l'.attempts w = {} from Function.update_self w {} l.attempts]
    rfl
  have hcarried : carried (l.ledger.next (.finish w delivered)).delivered
      - carried l.ledger.delivered = if delivered then j.carried else 0 := by
    rw [hdelivered, carried_append, add_sub_cancel_left]
    cases delivered <;> simp
  refine ⟨hsound, hbalance.trans ?_⟩
  rw [hcarried, show carried _ = 0 from hdue, add_zero]

/-- An answer that nobody will hear of. -/
theorem Sound.echo (hl : l.Sound t) (j : Job) (a : Answer) :
    (l.echo j a).Sound t ∧ (l.echo j a).counted = l.counted ∧
      (l.echo j a).balance = l.balance + if a.isSuccess then j.carried else 0 := by
  rw [Line.echo]
  cases a.isSuccess with
  | false => exact ⟨hl, rfl, (add_zero _).symm⟩
  | true =>
    refine ⟨⟨hl.covered, hl.reliable, hl.adrift, hl.workers⟩, rfl, ?_⟩
    show _ + ∑ u ∈ range l.ledger.pipeline.workers.length, carried (l.due u)
      + carried (j :: l.echoes) = _
    simp only [carried_cons, balance, if_true]
    ring

/-- The server answers a request, whoever waits for the answer. -/
theorem Sound.answer (hl : l.Sound t) (ht : t.base.IsRoot) (hj : j.Tells) (o : Http.Occasion) :
    (l.answer t j o).2.Sound t :=
  ⟨hl.covered, (answer_spec hl.reliable ht hj o).1, hl.adrift, hl.workers⟩

/-- **A worker hears of its attempt.** What was due from it is not due any more. If it hears of a
success, its job is delivered. -/
theorem Sound.hear (hl : l.Sound t) (hj : l.job? w = some j) (answer? : Option Answer) :
    (l.hear t w j answer?).Sound t ∧ (l.hear t w j answer?).counted = l.counted ∧
      (l.hear t w j answer?).balance
        = l.balance - carried (l.due w) + if accepts answer? then j.carried else 0 := by
  let heard := (l.attempts w).heard ++ [answer?]
  obtain ⟨haccepted, hstate⟩ :=
    Courier.replay_spec t j.delivery (hl.workers w).failing (hl.workers w).few answer?
  have hlength : heard.length = (l.attempts w).heard.length + 1 := List.length_append
  rw [Line.hear]
  by_cases hended : (t.replay j.delivery heard).state ≤ heard.length
  · obtain ⟨hsound, hbalance⟩ := hl.finish hj (accepts answer?)
    simp only [if_pos hended, haccepted, heard]
    exact ⟨hsound, rfl, hbalance⟩
  · -- the delivery goes on, so what was heard of was no success
    have hmore := hended
    rw [hstate, hlength] at hmore
    have hfailed : accepts answer? = false := by
      by_contra hsuccess
      rw [Bool.not_eq_false] at hsuccess
      rw [if_pos hsuccess] at hmore
      exact hmore (le_refl _)
    rw [hfailed, if_neg Bool.false_ne_true, Backoff.maxAttempts] at hmore
    have hheard : ∀ a ∈ heard, accepts a = false := by
      intro a ha
      rcases List.mem_append.mp ha with ha | ha
      · exact (hl.workers w).failing a ha
      · rw [List.mem_singleton.mp ha, hfailed]
    have hfew : heard.length ≤ t.backoff.delays.length := by omega
    obtain ⟨hsound, hbalance⟩ := hl.update (x := { heard }) hj hheard hfew
    simp only [heard] at hended
    simp only [if_neg hended, hfailed]
    exact ⟨hsound, rfl, hbalance⟩

/-- A step of the pipeline that ends no delivery. -/
theorem Sound.step (hl : l.Sound t) {s : Step} (hs : s.IsClear)
    (hfinish : ∀ w delivered, s ≠ .finish w delivered) :
    let l' : Line := { l with ledger := l.ledger.next s }
    l'.Sound t ∧ l'.balance = l.balance := by
  intro l'
  obtain ⟨hdelivered, hlength, hjobs⟩ := Ledger.next_of_ne_finish (l := l.ledger) hfinish
  have hdue : ∀ w, l'.due w = l.due w := by
    intro w
    rw [due, due]
    rcases hjobs w with hsame | hnone
    · rw [show l'.job? w = l.job? w from hsame]
    · -- a worker with nothing to do is not heard of
      rw [show (l'.attempts w).current = .unsent from (hl.workers w).idle hnone]
      rfl
  constructor
  · refine ⟨hl.covered.next hs, hl.reliable, hl.adrift, fun w => ?_⟩
    refine ⟨(hl.workers w).failing, (hl.workers w).few, fun hw => ?_⟩
    rcases hjobs w with hsame | hnone
    · exact (hl.workers w).idle (hsame.symm.trans hw)
    · exact (hl.workers w).idle hnone
  · rw [balance, balance]
    show carried (l.ledger.next s).delivered
      + ∑ w ∈ range (l.ledger.next s).pipeline.workers.length, carried (l'.due w)
      + carried l.echoes = _
    rw [hdelivered, hlength]
    simp only [hdue]

/-- A worker sends its request. -/
theorem Sound.send (hl : l.Sound t) (w : ℕ) :
    (l.next t (.send w)).Sound t ∧ (l.next t (.send w)).opening = l.opening := by
  simp only [next]
  split
  · rename_i j hj hunsent
    have hdue : carried (l.due w) = 0 := by
      rw [carried_due hj, hunsent]
      rfl
    obtain ⟨hsound, hbalance⟩ := hl.update (x := { l.attempts w with current := .sent }) hj
      (hl.workers w).failing (hl.workers w).few
    refine ⟨hsound, congrArg (l.counted - ·) (hbalance.trans ?_)⟩
    rw [hdue]
    simp [Attempt.isCounted]
  · exact ⟨hl, rfl⟩

/-- The server answers the request that a worker has sent. -/
theorem Sound.reach (hl : l.Sound t) (ht : t.base.IsRoot) (w : ℕ) (o : Http.Occasion) :
    (l.next t (.reach w o)).Sound t ∧ (l.next t (.reach w o)).opening = l.opening := by
  simp only [next]
  split
  · rename_i j hj hsent
    have hdue : carried (l.due w) = 0 := by
      rw [carried_due hj, hsent]
      rfl
    have hanswer := hl.answer ht (hl.tells hj) o
    obtain ⟨-, hopening⟩ := answer_spec hl.reliable ht (hl.tells hj) o
    let x : Attempts := { l.attempts w with current := .answered (l.answer t j o).1 }
    obtain ⟨hsound, hbalance⟩ :=
      hanswer.update (x := x) hj (hl.workers w).failing (hl.workers w).few
    have hsame : carried ((l.answer t j o).2.due w) = 0 := hdue
    rw [hsame, sub_zero] at hbalance
    refine ⟨hsound, (congrArg ((l.answer t j o).2.counted - ·) hbalance).trans ?_⟩
    rw [← sub_sub]
    show (l.answer t j o).2.opening - (if (l.answer t j o).1.isSuccess then _ else 0) = _
    rw [hopening, add_sub_cancel_right]
  · exact ⟨hl, rfl⟩

/-- A worker hears a response. -/
theorem Sound.hears (hl : l.Sound t) (w : ℕ) :
    (l.next t (.hear w)).Sound t ∧ (l.next t (.hear w)).opening = l.opening := by
  simp only [next]
  split
  · rename_i j a hj hanswered
    have hdue : carried (l.due w) = if a.isSuccess then j.carried else 0 := by
      rw [carried_due hj, hanswered]
      rfl
    obtain ⟨hsound, hcounted, hbalance⟩ := hl.hear hj (some a)
    refine ⟨hsound, ?_⟩
    rw [opening, opening, hcounted, hbalance, hdue, show accepts (some a) = a.isSuccess from rfl,
      sub_add_cancel]
  · exact ⟨hl, rfl⟩

/-- A worker gives up an attempt. -/
theorem Sound.giveUp (hl : l.Sound t) (w : ℕ) :
    (l.next t (.giveUp w)).Sound t ∧ (l.next t (.giveUp w)).opening = l.opening := by
  have hnone : accepts none = false := rfl
  simp only [next]
  split
  · rename_i j hj hsent
    -- its request may still arrive
    let adrift : Line := { l with adrift := j :: l.adrift }
    have hadrift : adrift.Sound t :=
      ⟨hl.covered, hl.reliable, List.forall_mem_cons.mpr ⟨hl.tells hj, hl.adrift⟩, hl.workers⟩
    have hdue : carried (adrift.due w) = 0 := by
      rw [carried_due (l := adrift) hj, show (adrift.attempts w).current = .sent from hsent]
      rfl
    have hsame : adrift.balance = l.balance := rfl
    obtain ⟨hsound, hcounted, hbalance⟩ := hadrift.hear hj none
    refine ⟨hsound, ?_⟩
    rw [opening, opening, hcounted, hbalance, hdue, hsame, hnone]
    simp [counted, adrift]
  · rename_i j a hj hanswered
    -- the server has answered, and nobody will hear of it
    obtain ⟨hecho, hcounted', hbalance'⟩ := hl.echo j a
    obtain ⟨hledger, hattempts⟩ := l.echo_frame j a
    have hj' : (l.echo j a).job? w = some j := by rw [job?, hledger, ← hj, job?]
    have hdue : carried ((l.echo j a).due w) = if a.isSuccess then j.carried else 0 := by
      rw [carried_due hj', hattempts, hanswered]
      rfl
    obtain ⟨hsound, hcounted, hbalance⟩ := hecho.hear hj' none
    refine ⟨hsound, ?_⟩
    rw [opening, opening, hcounted, hbalance, hdue, hcounted', hbalance', hnone]
    simp
  · exact ⟨hl, rfl⟩

/-- The server answers a request for which nobody waits any more. -/
theorem Sound.arrive (hl : l.Sound t) (ht : t.base.IsRoot) (i : ℕ) (o : Http.Occasion) :
    (l.next t (.arrive i o)).Sound t ∧ (l.next t (.arrive i o)).opening = l.opening := by
  simp only [next]
  split
  · rename_i j hj
    have htells : j.Tells := hl.adrift j (List.mem_of_getElem? hj)
    obtain ⟨hreliable, hopening⟩ := answer_spec hl.reliable ht htells o
    let arrived : Line := { (l.answer t j o).2 with adrift := l.adrift.eraseIdx i }
    have harrived : arrived.Sound t :=
      ⟨hl.covered, hreliable, fun k hk => hl.adrift k (List.mem_of_mem_eraseIdx hk), hl.workers⟩
    obtain ⟨hsound, hcounted', hbalance'⟩ := harrived.echo j (l.answer t j o).1
    refine ⟨hsound, ?_⟩
    show (arrived.echo j (l.answer t j o).1).counted - (arrived.echo j (l.answer t j o).1).balance
      = l.opening
    rw [hcounted', hbalance', ← sub_sub]
    show (l.answer t j o).2.opening - _ = _
    rw [hopening, add_sub_cancel_right]
  · exact ⟨hl, rfl⟩

/-- **One event keeps the books**: what the server stood at in the beginning remains the same. -/
theorem Sound.next (hl : l.Sound t) (ht : t.base.IsRoot) {e : Event} (he : e.IsClear) :
    (l.next t e).Sound t ∧ (l.next t e).opening = l.opening := by
  cases e with
  | step s =>
    by_cases hfinish : ∃ w delivered, s = .finish w delivered
    · obtain ⟨w, delivered, rfl⟩ := hfinish
      exact ⟨hl, rfl⟩
    · have hnot : ∀ w delivered, s ≠ .finish w delivered :=
        fun w delivered h => hfinish ⟨w, delivered, h⟩
      obtain ⟨hsound, hbalance⟩ := hl.step he hnot
      rw [next_step hnot]
      exact ⟨hsound, congrArg (l.counted - ·) hbalance⟩
  | send w => exact hl.send w
  | reach w o => exact hl.reach ht w o
  | hear w => exact hl.hears w
  | giveUp w => exact hl.giveUp w
  | arrive i o => exact hl.arrive ht i o

/-! ### Any course of events -/

theorem sound_create (mode : ReportMode) (limit : ℕ) {s : Http.Server} (hs : s.store.Reliable) :
    (create mode limit s).Sound t where
  covered := Ledger.covered_create mode limit
  reliable := hs
  adrift := List.forall_mem_nil _
  workers _ := ⟨List.forall_mem_nil _, Nat.zero_le _, fun _ => rfl⟩

theorem opening_create (mode : ReportMode) (limit : ℕ) (s : Http.Server) :
    (create mode limit s).opening = s.store.count Catalog.pollCount := by
  have hdue : ∀ w, (create mode limit s).due w = [] := fun w => rfl
  have hbalance : (create mode limit s).balance = 0 := by
    simp only [balance, hdue, carried_nil, Finset.sum_const_zero]
    rfl
  rw [opening, hbalance, sub_zero]
  rfl

/-- So do any events. -/
theorem Sound.run (hl : l.Sound t) (ht : t.base.IsRoot) {events : List Event}
    (he : ∀ e ∈ events, e.IsClear) :
    (l.run t events).Sound t ∧ (l.run t events).opening = l.opening := by
  induction events generalizing l with
  | nil => exact ⟨hl, rfl⟩
  | cons e events ih =>
    obtain ⟨hfirst, hrest⟩ := List.forall_mem_cons.mp he
    obtain ⟨hnext, hopening⟩ := hl.next ht hfirst
    obtain ⟨hsound, hrun⟩ := ih hnext hrest
    exact ⟨hsound, hrun.trans hopening⟩

/-- The jobs that workers deliver, worker by worker. -/
theorem credits_workers (ws : List (Option Job)) :
    credits (ws.filterMap id) = ∑ w ∈ range ws.length, credits ws[w]?.join.toList := by
  induction ws with
  | nil => rfl
  | cons o ws ih =>
    have hfront : (o :: ws).filterMap id = o.toList ++ ws.filterMap id := by
      cases o <;> rfl
    rw [hfront, credits_append, ih, List.length_cons, Finset.sum_range_succ', add_comm]
    rfl

/-- What is due from workers are jobs that they deliver. -/
theorem sum_due_le (l : Line) :
    ∑ w ∈ range l.ledger.pipeline.workers.length, carried (l.due w)
      ≤ credits l.ledger.pipeline.inFlight := by
  rw [Pipeline.inFlight, credits_workers, Nat.cast_sum]
  refine Finset.sum_le_sum fun w _ => ?_
  rw [due]
  split_ifs
  · exact carried_le_credits _
  · exact Int.natCast_nonneg _

/-- **The polls cover all but the echoes.** -/
theorem Sound.balance_le (hl : l.Sound t) :
    l.balance ≤ l.ledger.polls + carried l.echoes := by
  have hdelivered := carried_le_credits l.ledger.delivered
  have hdue := l.sum_due_le
  have hcovered := hl.covered.credit
  rw [Pipeline.credit, Pipeline.underWay, credits_append, credits_append] at hcovered
  rw [balance]
  omega

/-- **No poll is counted twice, but for responses that are lost.** Whatever a network does to the
requests of an agent and to the responses of a server that starts with any store, and wherever the
server cuts requests off, what it has counted for the agent is what was delivered, what is about to
be heard of, and the echoes: what it has counted and nobody will hear of. It is no more than the
polls and the echoes, and if there are no echoes, no more than the polls, however many requests were
lost, sent again and given back.

The numbers of polls may wrap around on the way, so nothing is said about how many there are. -/
theorem polls_counted (mode : ReportMode) (limit : ℕ) {t : Courier} (ht : t.base.IsRoot)
    {s : Http.Server} (hs : s.store.Reliable) {events : List Event}
    (he : ∀ e ∈ events, e.IsClear) :
    let l := (create mode limit s).run t events
    let gained := l.counted - s.store.count Catalog.pollCount
    gained = carried l.ledger.delivered
        + ∑ w ∈ range l.ledger.pipeline.workers.length, carried (l.due w) + carried l.echoes ∧
      gained ≤ l.ledger.polls + carried l.echoes ∧ (l.echoes = [] → gained ≤ l.ledger.polls) := by
  intro l gained
  obtain ⟨hsound, hopening⟩ := (sound_create mode limit hs).run ht he
  rw [opening_create] at hopening
  have hgained : gained = l.balance := by
    show l.counted - _ = _
    rw [← hopening]
    exact sub_sub_self _ _
  have hle := hsound.balance_le
  refine ⟨hgained, hgained.trans_le hle, fun hnone => hgained.trans_le (hle.trans ?_)⟩
  show _ + carried l.echoes ≤ _
  rw [hnone, carried_nil, add_zero]

/-- A courier to a server without a key, with these delays. -/
def plainCourier (delays : List ℕ) : Courier :=
  ⟨⟨"http", "localhost", some 8080, [""], none⟩, none, ⟨delays⟩⟩

/-- A poll of one level, and a report of it by a single worker up to the job with the polls. -/
def pollAndReport : List Event :=
  [.step (.poll [⟨"fixed", .ok [⟨"a", .gauge ⟨0⟩⟩]⟩]), .step .report, .step .enqueue,
    .step (.dequeue 0), .send 0, .reach 0 { trace := "" }, .hear 0, .step .enqueue,
    .step (.dequeue 0), .send 0]

/-- A request is lost on its way to the server, so its poll is given back and reported again. -/
theorem polls_counted_requeued :
    let events := pollAndReport ++ [.giveUp 0] ++ pollAndReport ++
      [.reach 0 { trace := "" }, .hear 0]
    let s : Http.Server := { store := .memory .empty }
    let l := (create .unary 1 s).run (plainCourier []) events
    l.echoes = [] ∧ l.counted = 2 ∧
      l.counted - s.store.count Catalog.pollCount ≤ l.ledger.polls := by
  have hclear : ∀ e ∈ pollAndReport ++ [.giveUp 0] ++ pollAndReport ++
      [.reach 0 { trace := "" }, .hear 0], e.IsClear := by
    simp [pollAndReport, Event.IsClear, Step.IsClear, Sampling.IsClear, Metric.IsClear]
  have hroot : (plainCourier []).base.IsRoot := .inr rfl
  have hs : (Store.memory .empty).Reliable := trivial
  have h := polls_counted .unary 1 hroot (s := { store := .memory .empty }) hs hclear
  exact ⟨by decide +kernel, by decide +kernel, h.2.2 (by decide +kernel)⟩

/-- **A response that is lost counts polls twice**: when its request is sent again, when another
request arrives late, and when the polls are given back and reported again. -/
theorem polls_counted_twice :
    let counted (delays : List ℕ) (events : List Event) : ℕ × ℤ :=
      let l := (create .unary 1 { store := .memory .empty }).run (plainCourier delays)
        (pollAndReport ++ events)
      (l.ledger.polls, l.counted)
    let reach : Event := .reach 0 { trace := "" }
    counted [1000] [reach, .giveUp 0, .send 0, reach, .hear 0] = (1, 2) ∧
      counted [1000] [.giveUp 0, .send 0, reach, .hear 0, .arrive 0 { trace := "" }] = (1, 2) ∧
      counted [] ([reach, .giveUp 0] ++ pollAndReport ++ [reach, .hear 0]) = (2, 3) := by
  decide +kernel

/-- A request that is cut off in front of a file is answered by a timeout and sent again, but its
poll is in the table already. -/
example :
    let s : Http.Server :=
      { store := .persistent (.create ⟨["metrics.json"], {}⟩ .immediate) }
    let l := (create .unary 1 s).run (plainCourier [1000]) (pollAndReport ++
      [.reach 0 { trace := "", cutOff := some 1 }, .hear 0, .send 0, .reach 0 { trace := "" },
        .hear 0])
    (l.ledger.polls, l.counted, l.echoes.map Job.carried) = (1, 2, [1]) := by
  decide +kernel

end Line

end Telemetry.Agent
