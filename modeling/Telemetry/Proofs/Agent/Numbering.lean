import Telemetry.Proofs.Agent.Network
import Telemetry.Proofs.Agent.Reports

/-!
# The numbers of jobs

The jobs of all reports are numbered in the order in which the reports were made. The queue hands
them out in that order, one after the other, so each worker delivers a job whose number has been
given out, and those that nobody has taken yet are held or wait in the queue.

## Main definitions

* `Telemetry.Agent.Numbering` — the reports so far, and which of their jobs were taken
* `Telemetry.Agent.Numbering.Took` — the job of a number that has been given out
* `Telemetry.Agent.Pipeline.Numbered` — what the numbers have to do with a pipeline

## Main results

* `Telemetry.Agent.Pipeline.Numbered.step` — one step keeps the numbers in order
-/

namespace Telemetry.Agent

/-! ### Numbers that are given out -/

/-- The reports that a pipeline has made, how many of their jobs were taken out of the queue, and
the number of the job that each worker took last. -/
structure Numbering where
  reports : List (List Metric) := []
  taken : ℕ := 0
  number : ℕ → ℕ := fun _ => 0

namespace Numbering

/-- The jobs of all reports, in the order of their numbers. -/
def jobs (n : Numbering) (mode : ReportMode) : List Job := n.reports.flatMap (plan mode)

/-- Was the job of a number taken, and is it this one? -/
def Took (n : Numbering) (mode : ReportMode) (i : ℕ) (j : Job) : Prop :=
  i < n.taken ∧ (n.jobs mode)[i]? = some j

/-- Writes down a step that a pipeline makes. A report without samples is none. -/
def write (n : Numbering) (p : Pipeline) : Step → Numbering
  | .report =>
    if p.samples.takeReport.1.isEmpty then n
    else { n with reports := n.reports ++ [p.samples.takeReport.1] }
  | .dequeue w => { n with taken := n.taken + 1, number := Function.update n.number w n.taken }
  | _ => n

/-- Writes down a step, if it is possible. -/
def step (n : Numbering) (p : Pipeline) (s : Step) : Numbering :=
  match p.step? s with
  | none => n
  | some _ => n.write p s

variable {n : Numbering} {mode : ReportMode} {i : ℕ} {j : Job}

/-- Jobs that were taken remain so, and their numbers remain theirs. -/
theorem Took.write (h : n.Took mode i j) (p : Pipeline) (s : Step) :
    (n.write p s).Took mode i j := by
  obtain ⟨hlt, hjob⟩ := h
  cases s with
  | report =>
    rw [Numbering.write]
    split_ifs
    · exact ⟨hlt, hjob⟩
    · have hlength : i < (n.jobs mode).length := (List.getElem?_eq_some_iff.mp hjob).1
      refine ⟨hlt, ?_⟩
      rw [jobs, List.flatMap_append]
      exact (List.getElem?_append_left hlength).trans hjob
  | dequeue w => exact ⟨Nat.lt_succ_of_lt hlt, hjob⟩
  | _ => exact ⟨hlt, hjob⟩

theorem Took.step (h : n.Took mode i j) (p : Pipeline) (s : Step) : (n.step p s).Took mode i j := by
  rw [Numbering.step]
  split
  · exact h
  · exact h.write p s

/-- A worker keeps the number of its job as long as it delivers it. -/
theorem number_step_of_job? {p : Pipeline} {w : ℕ} (hj : p.job? w = some j) (s : Step) :
    (n.step p s).number w = n.number w := by
  rw [Numbering.step]
  split
  · rfl
  · rename_i q hs
    cases Pipeline.happens_of_step? hs with
    | report _ _ =>
      rw [Numbering.write]
      split_ifs <;> rfl
    | dequeue _ hidle =>
      refine Function.update_of_ne ?_ _ _
      rintro rfl
      rw [Pipeline.job?, hidle] at hj
      cases hj
    | _ => rfl

/-- The end of a delivery gives out no number. -/
theorem step_finish (n : Numbering) (p : Pipeline) (w : ℕ) (delivered : Bool) :
    n.step p (.finish w delivered) = n := by
  rw [Numbering.step]
  split <;> rfl

end Numbering

/-! ### Numbers in a pipeline -/

namespace Pipeline

/-- What the numbers have to do with a pipeline: each worker delivers the job of its number, and
those that nobody has taken are held or wait in the queue, in their order, but for jobs that were
dropped when the reports ended. If there is only one worker, it delivers the last that was taken.
A report has at most one level for a name. -/
structure Numbered (mode : ReportMode) (limit : ℕ) (p : Pipeline) (n : Numbering) : Prop where
  mode_eq : p.mode = mode
  width : p.workers.length = max limit 1
  workers : ∀ w j, p.job? w = some j → n.Took mode (n.number w) j
  lone : limit ≤ 1 → ∀ w j, p.job? w = some j → n.number w + 1 = n.taken
  waiting : ∃ dropped, p.queue ++ p.held ++ dropped = (n.jobs mode).drop n.taken ∧
    (p.reporting = true → dropped = [])
  taken_le : n.taken ≤ (n.jobs mode).length
  single : ∀ report ∈ n.reports, ∀ id, (levels id report).length ≤ 1
  ascending : p.samples.Ascending

variable {mode : ReportMode} {limit : ℕ} {p q : Pipeline} {n : Numbering} {w : ℕ} {j : Job}
  {rest : List Job}

theorem job?_create (mode : ReportMode) (limit w : ℕ) : (create mode limit).job? w = none := by
  rw [job?, create, List.getElem?_replicate]
  split_ifs <;> rfl

theorem numbered_create (mode : ReportMode) (limit : ℕ) :
    (create mode limit).Numbered mode limit {} where
  mode_eq := rfl
  width := List.length_replicate
  workers w j hj := by
    rw [job?_create] at hj
    cases hj
  lone _ w j hj := by
    rw [job?_create] at hj
    cases hj
  waiting := ⟨[], rfl, fun _ => rfl⟩
  taken_le := Nat.zero_le _
  single := List.forall_mem_nil _
  ascending := List.Pairwise.nil

/-- Nothing changes but the polls. -/
theorem Numbered.of_eq (h : p.Numbered mode limit n) (hmode : q.mode = p.mode)
    (hworkers : q.workers = p.workers) (hqueue : q.queue = p.queue) (hheld : q.held = p.held)
    (hreporting : q.reporting = p.reporting) (hsamples : q.samples.Ascending) :
    q.Numbered mode limit n where
  mode_eq := hmode.trans h.mode_eq
  width := hworkers ▸ h.width
  workers w j hj := by
    rw [job?, hworkers] at hj
    exact h.workers w j hj
  lone hlimit w j hj := by
    rw [job?, hworkers] at hj
    exact h.lone hlimit w j hj
  waiting := by
    rw [hqueue, hheld, hreporting]
    exact h.waiting
  taken_le := h.taken_le
  single := h.single
  ascending := hsamples

/-- The jobs of a report have the next numbers behind all others. -/
theorem Numbered.report (h : p.Numbered mode limit n) (hreporting : p.reporting = true)
    (hheld : p.held = []) : p.report.Numbered mode limit (n.write p .report) := by
  have htook : ∀ w j, p.job? w = some j → (n.write p .report).Took mode (n.number w) j :=
    fun w j hj => (h.workers w j hj).write p .report
  rcases takeReport_cases p.samples with htake | htake
  · have hsame : p.report = p := by simp [Pipeline.report, htake]
    have hwrite : n.write p .report = n := by simp [Numbering.write, htake]
    rw [hsame, hwrite]
    exact h
  · generalize hms : p.samples.latest ++ [⟨Catalog.pollCount, .counter p.samples.pending⟩] = ms
      at htake
    have hne : ms ≠ [] := hms ▸ List.concat_ne_nil _ _
    have hreport : p.report
        = { p with samples := { p.samples with pending := 0 }, held := plan p.mode ms } := by
      simp [Pipeline.report, htake, hne]
    have hwrite : n.write p .report = { n with reports := n.reports ++ [ms] } := by
      simp [Numbering.write, htake, hne]
    have hjobs : (n.write p .report).jobs mode = n.jobs mode ++ plan mode ms := by
      rw [hwrite, Numbering.jobs, List.flatMap_append, List.flatMap_singleton, Numbering.jobs]
    rw [hwrite] at htook hjobs ⊢
    rw [hreport]
    refine ⟨h.mode_eq, h.width, htook, h.lone, ⟨[], ?_, fun _ => rfl⟩, ?_,
      fun report hmem id => ?_, h.ascending⟩
    · obtain ⟨dropped, hwaiting, hnone⟩ := h.waiting
      rw [hnone hreporting, hheld, List.append_nil, List.append_nil] at hwaiting
      rw [hjobs, List.drop_append_of_le_length h.taken_le, ← hwaiting, List.append_nil, h.mode_eq]
    · rw [hjobs, List.length_append]
      exact Nat.le_add_right_of_le h.taken_le
    · rcases List.mem_append.mp hmem with hmem | hmem
      · exact h.single report hmem id
      · have hsingle := h.ascending.length_levels id
        rw [htake] at hsingle
        rw [List.mem_singleton.mp hmem]
        exact hsingle

theorem Numbered.enqueue (h : p.Numbered mode limit n) (hheld : p.held = j :: rest) :
    ({ p with held := rest, queue := p.queue ++ [j] } : Pipeline).Numbered mode limit n where
  mode_eq := h.mode_eq
  width := h.width
  workers := h.workers
  lone := h.lone
  waiting := by
    obtain ⟨dropped, hwaiting, hnone⟩ := h.waiting
    refine ⟨dropped, ?_, hnone⟩
    rw [hheld] at hwaiting
    rw [← hwaiting]
    simp
  taken_le := h.taken_le
  single := h.single
  ascending := h.ascending

/-- The worker that takes the first job of the queue takes the one of the next number. -/
theorem Numbered.dequeue (h : p.Numbered mode limit n) (hqueue : p.queue = j :: rest)
    (hw : w < p.workers.length) :
    ({ p with queue := rest, workers := p.workers.set w (some j) } : Pipeline).Numbered mode limit
      (n.write p (.dequeue w)) := by
  obtain ⟨dropped, hwaiting, hnone⟩ := h.waiting
  rw [hqueue, List.cons_append, List.cons_append] at hwaiting
  have hlt : n.taken < (n.jobs mode).length := by
    by_contra hge
    rw [List.drop_eq_nil_of_le (Nat.le_of_not_lt hge)] at hwaiting
    cases hwaiting
  rw [List.drop_eq_getElem_cons hlt] at hwaiting
  obtain ⟨hj, hrest⟩ := List.cons_eq_cons.mp hwaiting
  have hwidth : (p.workers.set w (some j)).length = max limit 1 := by
    rw [List.length_set, h.width]
  refine ⟨h.mode_eq, hwidth, fun u k hk => ?_, fun hlimit u k hk => ?_, ⟨dropped, hrest, hnone⟩,
    hlt, h.single, h.ascending⟩
  · by_cases hu : u = w
    · subst hu
      have hsame : k = j := by
        rw [job?, List.getElem?_set_self hw] at hk
        exact (Option.some.inj hk).symm
      rw [show (n.write p (.dequeue u)).number u = n.taken from Function.update_self ..]
      exact ⟨Nat.lt_succ_self _, (List.getElem?_eq_getElem hlt).trans (by rw [hsame, hj])⟩
    · rw [job?, List.getElem?_set_ne (Ne.symm hu)] at hk
      rw [show (n.write p (.dequeue w)).number u = n.number u from Function.update_of_ne hu ..]
      exact (h.workers u k hk).write p (.dequeue w)
  · -- there is no other worker
    have hu : u < max limit 1 := hwidth ▸ lt_of_job? hk
    rw [h.width] at hw
    obtain rfl : u = w := by omega
    exact congrArg (· + 1) (Function.update_self ..)

theorem job?_of_set_none {ws : List (Option Job)} {u : ℕ} {k : Job}
    (h : (ws.set w none)[u]?.join = some k) : ws[u]?.join = some k := by
  by_cases hu : u = w
  · subst hu
    rw [List.getElem?_set_self'] at h
    obtain ⟨_, -, hk⟩ := Option.map_eq_some_iff.mp (Option.join_eq_some_iff.mp h)
    cases hk
  · rwa [List.getElem?_set_ne (Ne.symm hu)] at h

theorem Numbered.finish (h : p.Numbered mode limit n) (w : ℕ) (j : Job) (delivered : Bool) :
    (p.finish w j delivered).Numbered mode limit n := by
  have hidle : ({ p with workers := p.workers.set w none } : Pipeline).Numbered mode limit n :=
    ⟨h.mode_eq, List.length_set.trans h.width, fun u k hk => h.workers u k (job?_of_set_none hk),
      fun hlimit u k hk => h.lone hlimit u k (job?_of_set_none hk), h.waiting, h.taken_le, h.single,
      h.ascending⟩
  rw [Pipeline.finish.eq_def]
  dsimp only
  split
  · exact hidle.of_eq rfl rfl rfl rfl rfl h.ascending
  · exact hidle

theorem Numbered.endReports (h : p.Numbered mode limit n) : p.endReports.Numbered mode limit n := by
  have hempty : ({ p with held := [], reporting := false } : Pipeline).Numbered mode limit n := by
    obtain ⟨dropped, hwaiting, -⟩ := h.waiting
    refine ⟨h.mode_eq, h.width, h.workers, h.lone, ⟨p.held ++ dropped, ?_, nofun⟩, h.taken_le,
      h.single, h.ascending⟩
    rw [List.append_nil, ← hwaiting, List.append_assoc]
  rw [Pipeline.endReports]
  split
  · exact hempty.of_eq rfl rfl rfl rfl rfl h.ascending
  · exact hempty

/-- **One step keeps the numbers in order.** -/
theorem Numbered.step (h : p.Numbered mode limit n) {s : Step} (hs : p.step? s = some q) :
    q.Numbered mode limit (n.write p s) := by
  cases happens_of_step? hs with
  | poll _ => exact h.of_eq rfl rfl rfl rfl rfl (h.ascending.poll _)
  | report hreporting hheld => exact h.report hreporting hheld
  | enqueue hheld => exact h.enqueue hheld
  | dequeue hqueue hidle => exact h.dequeue hqueue (List.getElem?_eq_some_iff.mp hidle).1
  | finish _ => exact h.finish _ _ _
  | endPolls _ => exact h.of_eq rfl rfl rfl rfl rfl h.ascending
  | endReports _ => exact h.endReports

end Pipeline

/-- So does a step that need not be possible. -/
theorem Ledger.numbered_next {mode : ReportMode} {limit : ℕ} {l : Ledger} {n : Numbering}
    (h : l.pipeline.Numbered mode limit n) (s : Step) :
    (l.next s).pipeline.Numbered mode limit (n.step l.pipeline s) := by
  cases hs : l.pipeline.step? s with
  | none =>
    simp only [Ledger.next, Numbering.step, hs]
    exact h
  | some q =>
    simp only [Ledger.next, Numbering.step, hs]
    exact h.step hs

end Telemetry.Agent
