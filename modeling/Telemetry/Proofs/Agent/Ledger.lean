import Telemetry.Proofs.Agent.Carried
import Telemetry.Proofs.Places
import Mathlib.Data.List.Infix
import Mathlib.Data.List.Perm.Basic

/-!
# No poll is lost

Every poll that succeeded is pending, or carried by a job that the report still holds, that waits
in the queue or that a worker delivers, or it was carried by a job that was delivered. That is so
after any course of events, however deliveries fail and whenever the agent is stopped.

The pending number has 64 bits. What is not delivered yet has to fit into it: one more poll would
turn the number negative, and a negative number is not given back when reports end.

## Main definitions

* `Telemetry.Agent.Pipeline.Happens`: what the steps do that are possible
* `Telemetry.Agent.Ledger`: a pipeline with a record of its polls and deliveries
* `Telemetry.Agent.Pipeline.stock`: the polls that are pending or under way
* `Telemetry.Agent.Pipeline.Sound`: the invariant of a pipeline

## Main results

* `Telemetry.Agent.Pipeline.happens_of_step?`: all that a step can do
* `Telemetry.Agent.Pipeline.step_stock`: what one step does to the stock
* `Telemetry.Agent.Ledger.polls_conserved`: nothing is lost or counted twice
-/

namespace Telemetry.Agent

/-- The sources of a poll leave the counter of polls alone. -/
def Step.IsPlain : Step → Prop
  | .poll sources => ∀ s ∈ sources, s.IsPlain
  | _ => True

namespace Pipeline

/-- The jobs that workers deliver. -/
def inFlight (p : Pipeline) : List Job := p.workers.filterMap id

/-- All jobs that were made of reports and have not come to an end. -/
def underWay (p : Pipeline) : List Job := p.held ++ p.queue ++ p.inFlight

/-- The polls that are pending or under way. -/
def stock (p : Pipeline) : ℤ := p.samples.pending.toInt + carried p.underWay

/-- How many polls succeed in a step. -/
def polled (p : Pipeline) : Step → ℕ
  | .poll sources => if (p.samples.poll sources).1.isOk then 1 else 0
  | _ => 0

/-- The jobs that are delivered in a step. -/
def accepted (p : Pipeline) : Step → List Job
  | .finish w true => (p.job? w).toList
  | _ => []

/-- What holds of a pipeline at any time: no sample counts polls, no count is negative, and nothing
is held when reports have ended. -/
structure Sound (p : Pipeline) : Prop where
  plain : ∀ m ∈ p.samples.latest, pollsOf m = none
  pending : 0 ≤ p.samples.pending.toInt
  jobs : ∀ j ∈ p.underWay, 0 ≤ j.carried
  ended : p.reporting = false → p.held = []

theorem carried_perm {js ks : List Job} (h : js.Perm ks) : carried js = carried ks :=
  (h.map _).sum_eq

/-! ### What happens -/

/-- What a step does if it is possible. -/
inductive Happens (p : Pipeline) : Step → Pipeline → Prop where
  | poll {sources} (hpolling : p.polling = true) : Happens p (.poll sources) (p.poll sources)
  | report (hreporting : p.reporting = true) (hheld : p.held = []) : Happens p .report p.report
  | enqueue {j rest} (hheld : p.held = j :: rest) :
      Happens p .enqueue { p with held := rest, queue := p.queue ++ [j] }
  | dequeue {w j rest} (hqueue : p.queue = j :: rest) (hidle : p.workers[w]? = some none) :
      Happens p (.dequeue w) { p with queue := rest, workers := p.workers.set w (some j) }
  | finish {w j delivered} (hj : p.job? w = some j) :
      Happens p (.finish w delivered) (p.finish w j delivered)
  | endPolls (hpolling : p.polling = true) : Happens p .endPolls { p with polling := false }
  | endReports (hreporting : p.reporting = true) : Happens p .endReports p.endReports

theorem happens_of_step? {p q : Pipeline} {s : Step} (h : p.step? s = some q) : p.Happens s q := by
  cases s with
  | poll sources =>
    obtain ⟨hpolling, rfl⟩ : p.polling = true ∧ p.poll sources = q := by simpa [step?] using h
    exact .poll hpolling
  | report =>
    obtain ⟨⟨hreporting, hheld⟩, rfl⟩ :
        (p.reporting = true ∧ p.held = []) ∧ p.report = q := by
      simpa [step?] using h
    exact .report hreporting hheld
  | enqueue =>
    simp only [step?] at h
    split at h
    · cases h
    · rename_i j rest hheld
      split_ifs at h
      cases h
      exact .enqueue hheld
  | dequeue w =>
    simp only [step?] at h
    split at h
    · cases h
    · rename_i j rest hqueue
      split_ifs at h with hidle
      cases h
      exact .dequeue hqueue (by simpa [isIdle] using hidle)
  | finish w delivered =>
    obtain ⟨j, hj, rfl⟩ := Option.map_eq_some_iff.mp h
    exact .finish hj
  | endPolls =>
    obtain ⟨hpolling, rfl⟩ : p.polling = true ∧ { p with polling := false } = q := by
      simpa [step?] using h
    exact .endPolls hpolling
  | endReports =>
    obtain ⟨hreporting, rfl⟩ : p.reporting = true ∧ p.endReports = q := by
      simpa [step?] using h
    exact .endReports hreporting

/-! ### Jobs that change places -/

variable {p : Pipeline} {w : ℕ} {j : Job} {rest : List Job}

/-- A job that goes into the queue is still under way. -/
theorem underWay_enqueue (hheld : p.held = j :: rest) :
    ({ p with held := rest, queue := p.queue ++ [j] } : Pipeline).underWay.Perm p.underWay := by
  have hmid : (rest ++ p.queue ++ j :: p.inFlight).Perm
      (j :: (rest ++ p.queue ++ p.inFlight)) := List.perm_middle
  simpa [underWay, inFlight, hheld] using hmid

/-- So is a job that a worker takes out of the queue. -/
theorem underWay_dequeue (hqueue : p.queue = j :: rest) (hidle : p.workers[w]? = some none) :
    ({ p with queue := rest, workers := p.workers.set w (some j) } : Pipeline).underWay.Perm
      p.underWay := by
  simp only [underWay, inFlight, hqueue, List.append_assoc, List.cons_append]
  refine List.Perm.append_left _ ?_
  exact ((Places.fill_perm hidle j).append_left rest).trans List.perm_middle

/-- A job whose delivery ends is under way no more. -/
theorem underWay_finish (hj : p.job? w = some j) :
    p.underWay.Perm (j :: ({ p with workers := p.workers.set w none } : Pipeline).underWay) :=
  ((Places.empty_perm (Option.join_eq_some_iff.mp hj)).append_left _).trans List.perm_middle

/-! ### What a step does to the stock -/

/-- Jobs that change places change nothing. -/
theorem Sound.of_perm {p q : Pipeline} (hp : p.Sound) (hs : q.samples = p.samples)
    (hj : q.underWay.Perm p.underWay) (he : q.reporting = false → q.held = []) :
    q.Sound ∧ q.stock = p.stock := by
  refine ⟨⟨hs ▸ hp.plain, hs ▸ hp.pending, fun j h => hp.jobs j (hj.mem_iff.mp h), he⟩, ?_⟩
  rw [stock, stock, hs, carried_perm hj]

/-- Polls that are given back are pending again, if they fit. -/
theorem Sound.requeue {p : Pipeline} (hp : p.Sound) {n : Int64} (hn : 0 ≤ n.toInt)
    (hfit : p.stock + n.toInt < 2 ^ 63) :
    (p.requeue n).Sound ∧ (p.requeue n).stock = p.stock + n.toInt := by
  have hjobs : 0 ≤ carried p.underWay := carried_nonneg hp.jobs
  have hpend : 0 ≤ p.samples.pending.toInt := hp.pending
  rw [stock] at hfit
  have hadd : (p.samples.pending + n).toInt = p.samples.pending.toInt + n.toInt :=
    toInt_add_of_fits (by omega) (by omega)
  refine ⟨⟨hp.plain, ?_, hp.jobs, hp.ended⟩, ?_⟩
  · change 0 ≤ (p.samples.pending + n).toInt
    omega
  · change (p.samples.pending + n).toInt + carried p.underWay = p.stock + n.toInt
    rw [hadd, stock]
    omega

theorem Sound.poll {p : Pipeline} (hp : p.Sound) {sources : List Sampling}
    (hs : ∀ s ∈ sources, s.IsPlain) (hfit : p.stock + p.polled (.poll sources) < 2 ^ 63) :
    (p.poll sources).Sound ∧ (p.poll sources).stock = p.stock + p.polled (.poll sources) := by
  rcases poll_cases p.samples sources with ⟨f, h⟩ | ⟨ms, hg, h⟩
  · have hpoll : p.poll sources = p := by simp [Pipeline.poll, h]
    have hzero : p.polled (.poll sources) = 0 := by simp [polled, h, Except.isOk, Except.toBool]
    rw [hpoll, hzero]
    exact ⟨hp, by simp⟩
  · have hpoll : p.poll sources = { p with samples := p.samples.replace ms } := by
      simp [Pipeline.poll, h]
    have hone : p.polled (.poll sources) = 1 := by simp [polled, h, Except.isOk, Except.toBool]
    have hjobs : 0 ≤ carried p.underWay := carried_nonneg hp.jobs
    have hpend : 0 ≤ p.samples.pending.toInt := hp.pending
    rw [hone, stock] at hfit
    have hadd : (p.samples.pending + 1).toInt = p.samples.pending.toInt + 1 :=
      toInt_add_of_fits (by simp; omega) (by simp; omega)
    rw [hpoll, hone]
    refine ⟨⟨fun m hm => ?_, ?_, hp.jobs, hp.ended⟩, ?_⟩
    · obtain ⟨s, hsm, found, hout, hmf⟩ := mem_of_gather hg (mem_latest_replace hm)
      exact pollsOf_eq_none_iff.mpr (hs s hsm found hout m hmf)
    · change 0 ≤ (p.samples.pending + 1).toInt
      omega
    · change (p.samples.pending + 1).toInt + carried p.underWay = p.stock + (1 : ℕ)
      rw [hadd, stock]
      push_cast
      omega

theorem Sound.report {p : Pipeline} (hp : p.Sound) (hheld : p.held = [])
    (hrep : p.reporting = true) : p.report.Sound ∧ p.report.stock = p.stock := by
  rcases takeReport_cases p.samples with h | h
  · have hrefl : p.report = p := by simp [Pipeline.report, h]
    rw [hrefl]
    exact ⟨hp, rfl⟩
  · have hreport : p.report = { p with
        samples := { p.samples with pending := 0 }
        held := plan p.mode (p.samples.latest ++
          [⟨Catalog.pollCount, .counter p.samples.pending⟩]) } := by
      simp [Pipeline.report, h]
    rw [hreport]
    refine ⟨⟨hp.plain, by simp, fun j hj => ?_, fun h => ?_⟩, ?_⟩
    · simp only [underWay, inFlight, List.append_assoc, List.mem_append] at hj
      rcases hj with hj | hj
      · exact carried_nonneg_of_mem_plan hp.plain hp.pending hj
      · exact hp.jobs j (by simpa [underWay, hheld, inFlight] using hj)
    · rw [hrep] at h
      cases h
    · simp only [stock, underWay, carried_append, carried_plan p.mode hp.plain, hheld, inFlight,
        carried_nil, Int64.toInt_zero]
      omega

theorem Sound.finish {p : Pipeline} (hp : p.Sound) {w : ℕ} {j : Job} (hj : p.job? w = some j)
    (delivered : Bool) (hfit : p.stock - carried (p.accepted (.finish w delivered)) < 2 ^ 63) :
    (p.finish w j delivered).Sound ∧
      (p.finish w j delivered).stock = p.stock - carried (p.accepted (.finish w delivered)) := by
  have hperm := underWay_finish hj
  have hcarried := carried_perm hperm
  rw [carried_cons] at hcarried
  have hmem : ∀ k ∈ ({ p with workers := p.workers.set w none } : Pipeline).underWay,
      0 ≤ k.carried := fun k hk => hp.jobs k (hperm.mem_iff.mpr (List.mem_cons_of_mem _ hk))
  have hj0 : 0 ≤ j.carried := hp.jobs j (hperm.mem_iff.mpr List.mem_cons_self)
  have hidle : ({ p with workers := p.workers.set w none } : Pipeline).Sound :=
    ⟨hp.plain, hp.pending, hmem, hp.ended⟩
  have hstock : ({ p with workers := p.workers.set w none } : Pipeline).stock
      = p.stock - j.carried := by
    simp only [stock]
    omega
  cases delivered with
  | true =>
    have hacc : p.accepted (.finish w true) = [j] := by simp [accepted, hj]
    rw [hacc, carried_cons, carried_nil, add_zero, ← hstock]
    exact ⟨hidle, rfl⟩
  | false =>
    simp only [accepted, carried_nil, sub_zero] at hfit ⊢
    cases hpolls : j.polls with
    | none =>
      have hzero : j.carried = 0 := by simp [Job.carried, hpolls]
      simp only [Pipeline.finish, hpolls]
      exact ⟨hidle, by omega⟩
    | some n =>
      have hn : j.carried = n.toInt := by simp [Job.carried, hpolls]
      obtain ⟨hs, heq⟩ := hidle.requeue (n := n) (by omega) (by omega)
      simp only [Pipeline.finish, hpolls]
      exact ⟨hs, by omega⟩

theorem Sound.endReports {p : Pipeline} (hp : p.Sound) (hfit : p.stock < 2 ^ 63) :
    p.endReports.Sound ∧ p.endReports.stock = p.stock := by
  have hheld : ∀ j ∈ p.held, 0 ≤ j.carried := fun j hj => hp.jobs j (by simp [underWay, hj])
  have hrest : ∀ j ∈ p.queue ++ p.inFlight, 0 ≤ j.carried := fun j hj =>
    hp.jobs j (by rw [underWay, List.append_assoc]; exact List.mem_append_right _ hj)
  have hpend : 0 ≤ p.samples.pending.toInt := hp.pending
  have h0 : 0 ≤ carried p.held := carried_nonneg hheld
  have h1 : 0 ≤ carried (p.queue ++ p.inFlight) := carried_nonneg hrest
  have hsplit : p.stock = p.samples.pending.toInt + carried p.held
      + carried (p.queue ++ p.inFlight) := by
    simp only [stock, underWay, carried_append]
    omega
  have hunsent : (carriedByAll p.held).toInt = carried p.held :=
    toInt_carriedByAll hheld (by omega)
  have hempty : ({ p with held := [], reporting := false } : Pipeline).Sound :=
    ⟨hp.plain, hp.pending, fun j hj => hrest j (by simpa [underWay, inFlight] using hj),
      fun _ => rfl⟩
  have hstock : ({ p with held := [], reporting := false } : Pipeline).stock
      = p.stock - carried p.held := by
    simp only [stock, underWay, inFlight, carried_append, carried_nil]
    omega
  simp only [Pipeline.endReports]
  split
  · obtain ⟨hs, heq⟩ := hempty.requeue (n := carriedByAll p.held) (by omega) (by omega)
    exact ⟨hs, by omega⟩
  · rename_i hnot
    rw [Int64.lt_iff_toInt_lt, hunsent, Int64.toInt_zero] at hnot
    exact ⟨hempty, by omega⟩

/-- **What one step does to the stock.** A poll adds to it and a delivery takes from it; nothing
else changes it. -/
theorem step_stock {p q : Pipeline} {s : Step} (hp : p.Sound) (hs : s.IsPlain)
    (h : p.step? s = some q) (hfit : p.stock + p.polled s - carried (p.accepted s) < 2 ^ 63) :
    q.Sound ∧ q.stock = p.stock + p.polled s - carried (p.accepted s) := by
  cases happens_of_step? h with
  | poll _ => simpa [accepted] using hp.poll hs (by simpa [accepted] using hfit)
  | report hreporting hheld => simpa [accepted, polled] using hp.report hheld hreporting
  | enqueue hheld =>
    simp only [polled, accepted, carried_nil, Nat.cast_zero, add_zero, sub_zero]
    refine hp.of_perm rfl (underWay_enqueue hheld) fun he => ?_
    have hnone := hp.ended he
    rw [hheld] at hnone
    cases hnone
  | dequeue hqueue hidle =>
    simp only [polled, accepted, carried_nil, Nat.cast_zero, add_zero, sub_zero]
    exact hp.of_perm rfl (underWay_dequeue hqueue hidle) hp.ended
  | finish hj => simpa [polled] using hp.finish hj _ (by simpa [polled] using hfit)
  | endPolls _ =>
    simp only [polled, accepted, carried_nil, Nat.cast_zero, add_zero, sub_zero]
    exact hp.of_perm rfl (.refl _) hp.ended
  | endReports _ =>
    simpa [accepted, polled] using hp.endReports (by simpa [accepted, polled] using hfit)

theorem sound_create (mode : ReportMode) (limit : ℕ) : (create mode limit).Sound := by
  have hnone : (create mode limit).underWay = [] := by simp [underWay, inFlight, create]
  refine ⟨by simp [create], by simp [create], fun j hj => ?_, fun _ => rfl⟩
  rw [hnone] at hj
  cases hj

@[simp] theorem stock_create (mode : ReportMode) (limit : ℕ) : (create mode limit).stock = 0 := by
  simp [stock, underWay, inFlight, create]

end Pipeline

/-! ### The record of a course of events -/

/-- A pipeline with a record of what has happened so far. -/
structure Ledger where
  pipeline : Pipeline
  /-- How many polls succeeded. -/
  polls : ℕ := 0
  /-- The jobs that were delivered. -/
  delivered : List Job := []

namespace Ledger

/-- The record at the start. -/
def create (mode : ReportMode) (limit : ℕ) : Ledger := { pipeline := .create mode limit }

/-- The polls that were not delivered. -/
def backlog (l : Ledger) : ℤ := l.polls - carried l.delivered

/-- Records a step; one that is not possible does not happen. -/
def next (l : Ledger) (s : Step) : Ledger :=
  match l.pipeline.step? s with
  | none => l
  | some p =>
    { pipeline := p
      polls := l.polls + l.pipeline.polled s
      delivered := l.delivered ++ l.pipeline.accepted s }

/-- Records a course of events. -/
def run (l : Ledger) (steps : List Step) : Ledger := steps.foldl next l

/-- The record says nothing about the pipeline that is not so. -/
theorem pipeline_run (l : Ledger) (steps : List Step) :
    (l.run steps).pipeline = l.pipeline.run steps := by
  induction steps generalizing l with
  | nil => rfl
  | cons s steps ih =>
    have hnext : (l.next s).pipeline = (l.pipeline.step? s).getD l.pipeline := by
      simp only [next]
      split <;> simp_all
    rw [run, List.foldl_cons, ← run, ih, hnext]
    rfl

/-- The books balance: what was polled and not delivered is in stock. -/
structure Balanced (l : Ledger) : Prop where
  sound : l.pipeline.Sound
  stock : l.pipeline.stock = l.backlog

theorem balanced_create (mode : ReportMode) (limit : ℕ) : (create mode limit).Balanced :=
  ⟨Pipeline.sound_create mode limit, by simp [create, backlog]⟩

/-- **One step keeps the books balanced**, as long as the backlog fits. -/
theorem Balanced.next {l : Ledger} (hl : l.Balanced) {s : Step} (hs : s.IsPlain)
    (hfit : (l.next s).backlog < 2 ^ 63) : (l.next s).Balanced := by
  cases h : l.pipeline.step? s with
  | none =>
    have hrefl : l.next s = l := by simp [Ledger.next, h]
    rw [hrefl]
    exact hl
  | some p =>
    have hback : (l.next s).backlog
        = l.pipeline.stock + l.pipeline.polled s - carried (l.pipeline.accepted s) := by
      simp only [Ledger.next, h, backlog, carried_append, hl.stock, Nat.cast_add]
      omega
    obtain ⟨hsound, hstock⟩ := Pipeline.step_stock hl.sound hs h (hback ▸ hfit)
    have hp : (l.next s).pipeline = p := by simp [Ledger.next, h]
    exact ⟨hp ▸ hsound, by rw [hp, hstock, hback]⟩

/-- So does any course of steps. -/
theorem Balanced.run {l : Ledger} (hl : l.Balanced) {steps : List Step}
    (hs : ∀ s ∈ steps, s.IsPlain)
    (hfit : ∀ past, past <+: steps → (l.run past).backlog < 2 ^ 63) : (l.run steps).Balanced := by
  induction steps generalizing l with
  | nil => exact hl
  | cons s steps ih =>
    have hnext : (l.next s).Balanced :=
      hl.next (hs s List.mem_cons_self) (hfit [s] ⟨steps, rfl⟩)
    refine ih hnext (fun x hx => hs x (List.mem_cons_of_mem _ hx)) fun past hpast => ?_
    exact hfit (s :: past) (List.prefix_cons_inj s |>.mpr hpast)

/-- A pipeline that is done holds nothing any more. -/
theorem Balanced.underWay_eq_nil {l : Ledger} (hl : l.Balanced) (h : l.pipeline.isDone) :
    l.pipeline.underWay = [] := by
  obtain ⟨⟨⟨-, hrep⟩, hqueue⟩, hworkers⟩ : ((l.pipeline.polling = false ∧
      l.pipeline.reporting = false) ∧ l.pipeline.queue = []) ∧
      ∀ o ∈ l.pipeline.workers, o = none := by
    simpa [Pipeline.isDone] using h
  have hidle : l.pipeline.inFlight = [] := by
    rw [Pipeline.inFlight, List.filterMap_eq_nil_iff]
    exact hworkers
  rw [Pipeline.underWay, hl.sound.ended hrep, hqueue, hidle]
  rfl

/-- **No poll is lost and none is counted twice.** After any course of events the polls that
succeeded are those that are pending, those that the jobs of the report, of the queue and of the
workers carry, and those that were delivered. When all has come to its end, every poll was
delivered or is pending.

The last hypothesis keeps the pending number within its 64 bits, where it would wrap around. The
polls that were delivered do not count for it, so the course may be as long as it likes. -/
theorem polls_conserved (mode : ReportMode) (limit : ℕ) (steps : List Step)
    (hplain : ∀ s ∈ steps, s.IsPlain)
    (hfit : ∀ past, past <+: steps → ((create mode limit).run past).backlog < 2 ^ 63) :
    let l := (create mode limit).run steps
    let p := (Pipeline.create mode limit).run steps
    (l.polls : ℤ) = p.samples.pending.toInt + carried p.held + carried p.queue
        + carried p.inFlight + carried l.delivered ∧
      (p.isDone → p.held = [] ∧ p.queue = [] ∧ p.inFlight = [] ∧
        (l.polls : ℤ) = p.samples.pending.toInt + carried l.delivered) := by
  intro l p
  have hl : l.Balanced := (balanced_create mode limit).run hplain hfit
  have hp : l.pipeline = p := pipeline_run (create mode limit) steps
  have hbooks : (l.polls : ℤ) = p.samples.pending.toInt + carried p.held + carried p.queue
      + carried p.inFlight + carried l.delivered := by
    have hstock := hl.stock
    rw [hp, Pipeline.stock, Pipeline.underWay, carried_append, carried_append, backlog] at hstock
    omega
  refine ⟨hbooks, fun hdone => ?_⟩
  have hnil : p.underWay = [] := hp ▸ hl.underWay_eq_nil (hp ▸ hdone)
  obtain ⟨hheld, hqueue, hflight⟩ : p.held = [] ∧ p.queue = [] ∧ p.inFlight = [] := by
    simpa [Pipeline.underWay] using hnil
  rw [hheld, hqueue, hflight, carried_nil] at hbooks
  exact ⟨hheld, hqueue, hflight, by omega⟩

/-- A course in which one report is delivered, one comes back, and one is cut off when the queue
is full and the agent is stopped. -/
def interruptedCourse : List Step :=
  let poll : Step := .poll [⟨"fixed", .ok [⟨"a", .gauge ⟨0⟩⟩]⟩]
  let send : List Step := [.enqueue, .dequeue 0, .finish 0 true, .enqueue, .dequeue 0]
  [poll, .report] ++ send ++ [.finish 0 true, poll, .report] ++ send ++
    [.finish 0 false, poll, .report, .enqueue, .endReports, .dequeue 0, .finish 0 true, .endPolls]

theorem polls_conserved_interrupted :
    let l := (create .perMetric 1).run interruptedCourse
    let p := (Pipeline.create .perMetric 1).run interruptedCourse
    p.isDone ∧ l.polls = 3 ∧ p.samples.pending = 2 ∧
      (l.polls : ℤ) = p.samples.pending.toInt + carried l.delivered := by
  have hplain : ∀ s ∈ interruptedCourse, s.IsPlain := by
    simp [interruptedCourse, Step.IsPlain, Sampling.IsPlain, Metric.key, Metric.kind, Value.kind]
  have hfit : ∀ past, past <+: interruptedCourse →
      ((create .perMetric 1).run past).backlog < 2 ^ 63 := by
    intro past hpast
    have hall : ∀ past ∈ interruptedCourse.inits,
        ((create .perMetric 1).run past).backlog < 2 ^ 63 := by decide
    exact hall past ((List.mem_inits past interruptedCourse).mpr hpast)
  have hdone : ((Pipeline.create .perMetric 1).run interruptedCourse).isDone := by decide
  have h := polls_conserved .perMetric 1 interruptedCourse hplain hfit
  exact ⟨hdone, by decide, by decide, (h.2 hdone).2.2.2⟩

end Ledger
end Telemetry.Agent
