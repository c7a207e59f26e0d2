import Telemetry.Proofs.Agent.Ledger
import Telemetry.Proofs.Http.Counting

/-!
# What jobs tell a server of polls

The delivery of a job tells a server of as many polls as the job carries, and a delivery of several
metrics tells it last. The number has 64 bits and may wrap around. Then it tells of fewer polls
than there were, even of a negative number, but never of more: whatever happens, what was delivered
and what is pending or under way comes to no more than the polls that succeeded.

## Main definitions

* `Telemetry.Agent.Sampling.IsClear` — a source that no server takes for a counter of polls
* `Telemetry.Agent.Job.Tells` — a job whose delivery tells of the polls that it carries
* `Telemetry.Agent.credit` — the fewest polls that a number of 64 bits can stand for

## Main results

* `Telemetry.Agent.tells_of_mem_plan` — the jobs of a report
* `Telemetry.Agent.Pipeline.Clear.step` — one step
* `Telemetry.Agent.Ledger.Covered.next` — one step that is recorded
-/

namespace Telemetry

/-- No server takes the metric for the counter of polls, however it is delivered: an address drops
tabs and line breaks from names. -/
def Metric.IsClear (m : Metric) : Prop :=
  ∀ n, m.value = .counter n → Url.unbroken m.id ≠ Catalog.pollCount

namespace Agent

/-- The source measures nothing that a server takes for the counter of polls. -/
def Sampling.IsClear (s : Sampling) : Prop := ∀ ms, s.outcome = .ok ms → ∀ m ∈ ms, m.IsClear

/-- The sources of a poll measure nothing that a server takes for the counter of polls. -/
def Step.IsClear : Step → Prop
  | .poll sources => ∀ s ∈ sources, s.IsClear
  | _ => True

/-- The delivery of a job tells of the polls that it carries, in its last metric if at all. -/
structure Job.Tells (j : Job) : Prop where
  sum : (deltas Catalog.pollCount j.delivery.told).sum = j.carried
  last : deltas Catalog.pollCount j.delivery.told.dropLast = []

/-! ### What the jobs of a report tell -/

variable {m : Metric} {latest : List Metric} {n : Int64}

theorem pollsOf_of_isClear (h : m.IsClear) : pollsOf m = none := by
  obtain ⟨id, x | d⟩ := m
  · rfl
  · have hid : id ≠ Catalog.pollCount := by
      rintro rfl
      have hsame : Url.unbroken Catalog.pollCount = Catalog.pollCount := by decide
      exact h d rfl hsame
    simp [pollsOf, hid]

theorem deltas_of_isClear (h : ∀ m ∈ latest, m.IsClear) :
    deltas Catalog.pollCount latest = [] := by
  rw [deltas_eq_nil_iff, List.mem_map]
  rintro ⟨m, hm, hkey⟩
  exact pollsOf_eq_none_iff.mp (pollsOf_of_isClear (h m hm)) hkey

theorem deltas_path_of_isClear (h : m.IsClear) :
    deltas Catalog.pollCount (Delivery.path m).told = [] := by
  rw [deltas_eq_nil_iff, List.mem_map]
  rintro ⟨x, hx, hkey⟩
  rw [Delivery.told, Option.mem_toList, Option.map_eq_some_iff] at hx
  obtain ⟨kept, hkept, rfl⟩ := hx
  rw [Url.kept?] at hkept
  split_ifs at hkept
  obtain ⟨id, x | d⟩ := m
  · cases hkey
  · cases hkept
    exact h d rfl (congrArg Key.id hkey)

/-- A report as a whole. -/
theorem tells_report (h : ∀ m ∈ latest, m.IsClear) :
    let report := latest ++ [⟨Catalog.pollCount, .counter n⟩]
    Job.Tells ⟨.batch report, carriedPolls report⟩ := by
  intro report
  have hcarried := carried_plan .batch (n := n) fun m hm => pollsOf_of_isClear (h m hm)
  rw [plan, carried_cons, carried_nil, add_zero] at hcarried
  constructor
  · rw [hcarried]
    show (deltas Catalog.pollCount report).sum = n.toInt
    rw [deltas_append, deltas_of_isClear h, deltas_counter, if_pos rfl]
    simp
  · show deltas Catalog.pollCount report.dropLast = []
    rw [List.dropLast_concat]
    exact deltas_of_isClear h

theorem dropLast_told_path (m : Metric) : (Delivery.path m).told.dropLast = [] := by
  rw [Delivery.told]
  cases Url.kept? m.id <;> rfl

/-- A metric that is clear tells of no polls, as a document or as a path. -/
theorem tells_of_isClear (h : m.IsClear) :
    Job.Tells ⟨.document m, pollsOf m⟩ ∧ Job.Tells ⟨.path m, pollsOf m⟩ := by
  have hnone : ∀ d, (⟨d, pollsOf m⟩ : Job).carried = 0 := by
    intro d
    rw [pollsOf_of_isClear h]
    rfl
  refine ⟨⟨?_, rfl⟩, ⟨?_, ?_⟩⟩
  · rw [hnone]
    exact congrArg List.sum (deltas_of_isClear (List.forall_mem_singleton.mpr h))
  · rw [hnone]
    exact congrArg List.sum (deltas_path_of_isClear h)
  · rw [dropLast_told_path]
    rfl

/-- The counter of polls tells of what it stands at, as a document or as a path. -/
theorem tells_pollCount (n : Int64) :
    let m : Metric := ⟨Catalog.pollCount, .counter n⟩
    Job.Tells ⟨.document m, pollsOf m⟩ ∧ Job.Tells ⟨.path m, pollsOf m⟩ := by
  intro m
  have hkept : Url.kept? Catalog.pollCount = some Catalog.pollCount := by decide
  have htold : (Delivery.path m).told = [m] := by
    rw [Delivery.told, show Url.kept? m.id = _ from hkept]
    rfl
  have hsum : (deltas Catalog.pollCount [m]).sum = n.toInt := by
    rw [deltas_counter, if_pos rfl, List.sum_singleton]
  have hcarried : ∀ d, (⟨d, pollsOf m⟩ : Job).carried = n.toInt := by
    intro d
    rw [pollsOf_pollCount]
    rfl
  refine ⟨⟨?_, rfl⟩, ⟨?_, ?_⟩⟩
  · rw [hcarried]
    exact hsum
  · rw [hcarried, htold]
    exact hsum
  · rw [dropLast_told_path]
    rfl

/-- **The jobs of a report tell of what they carry**, in every mode. -/
theorem tells_of_mem_plan {mode : ReportMode} {j : Job} (h : ∀ m ∈ latest, m.IsClear)
    (hj : j ∈ plan mode (latest ++ [⟨Catalog.pollCount, .counter n⟩])) : j.Tells := by
  have hsingle : ∀ m ∈ latest ++ [⟨Catalog.pollCount, .counter n⟩],
      Job.Tells ⟨.document m, pollsOf m⟩ ∧ Job.Tells ⟨.path m, pollsOf m⟩ := by
    intro m hm
    rcases List.mem_append.mp hm with hm | hm
    · exact tells_of_isClear (h m hm)
    · rw [List.mem_singleton.mp hm]
      exact tells_pollCount n
  cases mode with
  | batch =>
    rw [List.mem_singleton.mp hj]
    exact tells_report h
  | perMetric =>
    obtain ⟨m, hm, rfl⟩ := List.mem_map.mp hj
    exact (hsingle m hm).1
  | unary =>
    obtain ⟨m, hm, rfl⟩ := List.mem_map.mp hj
    exact (hsingle m hm).2

/-! ### Numbers that may wrap around -/

/-- The fewest polls that a number of 64 bits can stand for: a negative one has wrapped around. -/
def credit (n : Int64) : ℕ := n.toBitVec.toNat

/-- The fewest polls that the numbers of jobs can stand for altogether. -/
def credits (jobs : List Job) : ℕ := ((jobs.filterMap Job.polls).map credit).sum

theorem toInt_le_credit (n : Int64) : n.toInt ≤ credit n := by
  have h := BitVec.toInt_eq_toNat_cond n.toBitVec
  rw [show n.toInt = n.toBitVec.toInt from rfl, h, credit]
  split_ifs
  · exact le_refl _
  · omega

/-- A sum stands for no more than its parts, since it can only lose by wrapping around. -/
theorem credit_add_le (a b : Int64) : credit (a + b) ≤ credit a + credit b := by
  rw [credit, Int64.toBitVec_add, BitVec.toNat_add]
  exact Nat.mod_le _ _

theorem credit_add_one_le (a : Int64) : credit (a + 1) ≤ credit a + 1 := credit_add_le a 1

@[simp] theorem credits_nil : credits [] = 0 := rfl

@[simp] theorem credits_append (js ks : List Job) :
    credits (js ++ ks) = credits js + credits ks := by
  simp [credits]

theorem credits_perm {js ks : List Job} (h : js.Perm ks) : credits js = credits ks :=
  ((h.filterMap _).map _).sum_eq

/-- What a single job stands for. -/
theorem credits_singleton (j : Job) : credits [j] = j.polls.elim 0 credit := by
  obtain ⟨d, _ | n⟩ := j
  · rfl
  · exact List.sum_singleton

theorem carried_le_credits (jobs : List Job) : carried jobs ≤ credits jobs := by
  induction jobs with
  | nil => exact le_refl _
  | cons j jobs ih =>
    have hjob : j.carried ≤ credits [j] := by
      rw [credits_singleton, Job.carried]
      cases j.polls with
      | none => exact le_refl _
      | some n => exact toInt_le_credit n
    rw [← List.singleton_append, carried_append, credits_append, carried_cons, carried_nil]
    omega

theorem credit_carriedByAll_le (jobs : List Job) : credit (carriedByAll jobs) ≤ credits jobs := by
  -- the sum is formed from the left, on top of what there is already
  have hfold : ∀ (ns : List Int64) (acc : Int64),
      credit (ns.foldl (· + ·) acc) ≤ credit acc + (ns.map credit).sum := by
    intro ns
    induction ns with
    | nil => exact fun acc => le_refl _
    | cons n ns ih =>
      intro acc
      have hsum := ih (acc + n)
      have hadd := credit_add_le acc n
      rw [List.foldl_cons, List.map_cons, List.sum_cons]
      omega
  have h := hfold (jobs.filterMap Job.polls) 0
  rwa [show credit 0 = 0 from rfl, Nat.zero_add] at h

/-- **The jobs of a report stand for what was pending**, in every mode. -/
theorem credits_plan (mode : ReportMode) (h : ∀ m ∈ latest, m.IsClear) :
    credits (plan mode (latest ++ [⟨Catalog.pollCount, .counter n⟩])) = credit n := by
  let report : List Metric := latest ++ [⟨Catalog.pollCount, .counter n⟩]
  have hpolls : report.filterMap pollsOf = [n] := by
    have hnone : latest.filterMap pollsOf = [] :=
      List.filterMap_eq_nil_iff.mpr fun m hm => pollsOf_of_isClear (h m hm)
    rw [List.filterMap_append, hnone]
    simp
  have hplan : (plan mode report).filterMap Job.polls = [n] := by
    cases mode with
    | batch =>
      have hfirst : carriedPolls report = some n := by
        rw [carriedPolls, ← List.head?_filterMap, hpolls]
        rfl
      simp [plan, hfirst]
    | perMetric => rw [plan, List.filterMap_map, ← hpolls]; rfl
    | unary => rw [plan, List.filterMap_map, ← hpolls]; rfl
  rw [credits, hplan]
  exact List.sum_singleton

/-! ### What a step does -/

namespace Pipeline

/-- The fewest polls that are pending or under way. -/
def credit (p : Pipeline) : ℕ := Agent.credit p.samples.pending + credits p.underWay

/-- No sample is taken for the counter of polls, and all jobs tell of what they carry. -/
structure Clear (p : Pipeline) : Prop where
  latest : ∀ m ∈ p.samples.latest, m.IsClear
  jobs : ∀ j ∈ p.underWay, j.Tells

variable {p q : Pipeline}

/-- Jobs that change places change nothing. -/
theorem Clear.of_perm (hp : p.Clear) (hs : q.samples = p.samples)
    (hj : q.underWay.Perm p.underWay) : q.Clear ∧ q.credit ≤ p.credit := by
  refine ⟨⟨hs ▸ hp.latest, fun j h => hp.jobs j (hj.mem_iff.mp h)⟩, ?_⟩
  rw [credit, credit, hs, credits_perm hj]

/-- Polls that are given back. -/
theorem Clear.requeue (hp : p.Clear) (n : Int64) :
    (p.requeue n).Clear ∧ (p.requeue n).credit ≤ p.credit + Agent.credit n := by
  refine ⟨⟨hp.latest, hp.jobs⟩, ?_⟩
  have hadd := credit_add_le p.samples.pending n
  show Agent.credit (p.samples.pending + n) + credits p.underWay ≤ _
  rw [credit]
  omega

theorem Clear.poll (hp : p.Clear) {sources : List Sampling} (hs : ∀ s ∈ sources, s.IsClear) :
    (p.poll sources).Clear ∧
      (p.poll sources).credit ≤ p.credit + p.polled (.poll sources) := by
  rcases poll_cases p.samples sources with ⟨f, h⟩ | ⟨ms, hg, h⟩
  · have hpoll : p.poll sources = p := by simp [Pipeline.poll, h]
    rw [hpoll]
    exact ⟨hp, Nat.le_add_right _ _⟩
  · have hpoll : p.poll sources = { p with samples := p.samples.replace ms } := by
      simp [Pipeline.poll, h]
    have hone : p.polled (.poll sources) = 1 := by simp [polled, h, Except.isOk, Except.toBool]
    rw [hpoll, hone]
    refine ⟨⟨fun m hm => ?_, hp.jobs⟩, ?_⟩
    · obtain ⟨s, hsm, found, hout, hmf⟩ := mem_of_gather hg (mem_latest_replace hm)
      exact hs s hsm found hout m hmf
    · have hadd := credit_add_one_le p.samples.pending
      show Agent.credit (p.samples.pending + 1) + credits p.underWay ≤ _
      rw [credit]
      omega

theorem Clear.report (hp : p.Clear) (hheld : p.held = []) :
    p.report.Clear ∧ p.report.credit ≤ p.credit := by
  rcases takeReport_cases p.samples with h | h
  · have hrefl : p.report = p := by simp [Pipeline.report, h]
    rw [hrefl]
    exact ⟨hp, le_refl _⟩
  · let jobs := plan p.mode (p.samples.latest ++ [⟨Catalog.pollCount, .counter p.samples.pending⟩])
    have hreport : p.report
        = { p with samples := { p.samples with pending := 0 }, held := jobs } := by
      simp [Pipeline.report, h, jobs]
    have hwas : p.underWay = p.queue ++ p.inFlight := by rw [underWay, hheld, List.nil_append]
    have hunder : p.report.underWay = jobs ++ p.underWay := by
      rw [hwas, hreport, ← List.append_assoc]
      rfl
    constructor
    · refine ⟨?_, fun j hj => ?_⟩
      · rw [hreport]
        exact hp.latest
      · rw [hunder] at hj
        rcases List.mem_append.mp hj with hj | hj
        · exact tells_of_mem_plan hp.latest hj
        · exact hp.jobs j hj
    · have hpending : p.report.samples.pending = 0 := by rw [hreport]
      rw [credit, credit, hunder, hpending, credits_append, credits_plan p.mode hp.latest,
        show Agent.credit 0 = 0 from rfl]
      omega

theorem Clear.finish (hp : p.Clear) {w : ℕ} {j : Job} (hj : p.job? w = some j)
    (delivered : Bool) : (p.finish w j delivered).Clear ∧
      (p.finish w j delivered).credit + credits (p.accepted (.finish w delivered)) ≤ p.credit := by
  let idle : Pipeline := { p with workers := p.workers.set w none }
  have hperm : p.underWay.Perm (j :: idle.underWay) := underWay_finish hj
  have hcredits : credits p.underWay = credits [j] + credits idle.underWay := by
    rw [credits_perm hperm, ← List.singleton_append, credits_append]
  have hidle : idle.Clear :=
    ⟨hp.latest, fun k hk => hp.jobs k (hperm.mem_iff.mpr (List.mem_cons_of_mem _ hk))⟩
  have hcredit : idle.credit + credits [j] = p.credit := by
    show Agent.credit p.samples.pending + credits idle.underWay + credits [j] = p.credit
    rw [credit, hcredits]
    omega
  rw [credits_singleton] at hcredit
  cases delivered with
  | true =>
    have hacc : p.accepted (.finish w true) = [j] := by simp [accepted, hj]
    rw [hacc, credits_singleton]
    exact ⟨hidle, hcredit.le⟩
  | false =>
    cases hpolls : j.polls with
    | none =>
      rw [hpolls] at hcredit
      simp only [Pipeline.finish, hpolls]
      exact ⟨hidle, hcredit.le⟩
    | some n =>
      rw [hpolls] at hcredit
      obtain ⟨hclear, hrequeue⟩ := hidle.requeue n
      simp only [Pipeline.finish, hpolls]
      exact ⟨hclear, hrequeue.trans hcredit.le⟩

theorem Clear.endReports (hp : p.Clear) :
    p.endReports.Clear ∧ p.endReports.credit ≤ p.credit := by
  let empty : Pipeline := { p with held := [], reporting := false }
  have hsplit : p.underWay = p.held ++ empty.underWay := List.append_assoc _ _ _
  have hempty : empty.Clear :=
    ⟨hp.latest, fun j hj => hp.jobs j (hsplit ▸ List.mem_append_right _ hj)⟩
  have hcredit : empty.credit + credits p.held = p.credit := by
    show Agent.credit p.samples.pending + credits empty.underWay + credits p.held = p.credit
    rw [credit, hsplit, credits_append]
    omega
  simp only [Pipeline.endReports]
  split
  · obtain ⟨hclear, hrequeue⟩ := hempty.requeue (carriedByAll p.held)
    have hall := credit_carriedByAll_le p.held
    exact ⟨hclear, hrequeue.trans (by omega)⟩
  · exact ⟨hempty, (Nat.le_add_right _ _).trans hcredit.le⟩

/-- **What one step does to the credit.** A poll adds to it at most what it is worth, a delivery
takes from it what it is worth, and nothing else adds to it. -/
theorem Clear.step (hp : p.Clear) {s : Step} (hs : s.IsClear) (h : p.step? s = some q) :
    q.Clear ∧ q.credit + credits (p.accepted s) ≤ p.credit + p.polled s := by
  cases happens_of_step? h with
  | poll _ => exact hp.poll hs
  | report _ hheld => exact hp.report hheld
  | enqueue hheld => exact hp.of_perm rfl (underWay_enqueue hheld)
  | dequeue hqueue hidle => exact hp.of_perm rfl (underWay_dequeue hqueue hidle)
  | finish hj => exact hp.finish hj _
  | endPolls _ => exact hp.of_perm rfl (.refl _)
  | endReports _ => exact hp.endReports

end Pipeline

/-- The polls cover what was delivered and what is pending or under way. -/
structure Ledger.Covered (l : Ledger) : Prop where
  clear : l.pipeline.Clear
  credit : l.pipeline.credit + credits l.delivered ≤ l.polls

theorem Ledger.covered_create (mode : ReportMode) (limit : ℕ) : (create mode limit).Covered := by
  have hnone : (Pipeline.create mode limit).underWay = [] := by
    simp [Pipeline.underWay, Pipeline.inFlight, Pipeline.create]
  refine ⟨⟨List.forall_mem_nil _, ?_⟩, ?_⟩
  · show ∀ j ∈ (Pipeline.create mode limit).underWay, j.Tells
    rw [hnone]
    exact List.forall_mem_nil _
  · show Agent.credit 0 + credits (Pipeline.create mode limit).underWay + 0 ≤ 0
    rw [hnone]
    exact le_refl _

/-- **One step keeps what was delivered covered**, however far the numbers have wrapped around. -/
theorem Ledger.Covered.next {l : Ledger} (hl : l.Covered) {s : Step} (hs : s.IsClear) :
    (l.next s).Covered := by
  rw [Ledger.next.eq_def]
  split
  · exact hl
  · rename_i p h
    obtain ⟨hclear, hstep⟩ := hl.clear.step hs h
    refine ⟨hclear, ?_⟩
    have hcredit := hl.credit
    rw [credits_append]
    show p.credit + (credits l.delivered + credits (l.pipeline.accepted s))
      ≤ l.polls + l.pipeline.polled s
    omega

end Agent
end Telemetry
