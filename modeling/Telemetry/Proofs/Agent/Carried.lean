import Telemetry.Agent.Pipeline
import Mathlib.Algebra.BigOperators.Group.List.Basic
import Mathlib.Algebra.Order.BigOperators.Group.List
import Mathlib.Tactic.Linarith

/-!
# The polls that jobs carry

A report moves the number of pending polls into one of its jobs, whatever its mode, provided no
source measures a counter under the name of the counter of polls. The numbers are 64-bit integers;
here they are read as integers, and every sum says when the two agree.

## Main definitions

* `Telemetry.Agent.Sampling.IsPlain` — a source that leaves the counter of polls alone
* `Telemetry.Agent.Job.carried`, `Telemetry.Agent.carried` — the polls of a job, and of jobs

## Main results

* `Telemetry.Agent.carried_plan` — the jobs of a report carry what was pending
* `Telemetry.Agent.toInt_carriedByAll` — the 64-bit sum is the sum, while that fits
-/

namespace Telemetry.Agent

/-! ### Sums in 64 bits -/

/-- An addition whose result fits does not wrap round. -/
theorem toInt_add_of_fits {a b : Int64} (hlo : -2 ^ 63 ≤ a.toInt + b.toInt)
    (hhi : a.toInt + b.toInt < 2 ^ 63) : (a + b).toInt = a.toInt + b.toInt := by
  rw [Int64.toInt_add]
  exact Int.bmod_eq_of_le (by omega) (by omega)

/-! ### Sources that leave the counter of polls alone -/

/-- The source measures no counter under the name of the counter of polls. -/
def Sampling.IsPlain (s : Sampling) : Prop :=
  ∀ ms, s.outcome = .ok ms → ∀ m ∈ ms, m.key ≠ ⟨Catalog.pollCount, .counter⟩

theorem pollsOf_eq_none_iff {m : Metric} :
    pollsOf m = none ↔ m.key ≠ ⟨Catalog.pollCount, .counter⟩ := by
  obtain ⟨id, level | delta⟩ := m
  · simp [pollsOf, Metric.key, Metric.kind, Value.kind]
  · simp [pollsOf, Metric.key, Metric.kind, Value.kind]

@[simp] theorem pollsOf_pollCount (n : Int64) :
    pollsOf ⟨Catalog.pollCount, .counter n⟩ = some n := by
  simp [pollsOf]

theorem mem_of_gather {sources : List Sampling} {ms : List Metric} {m : Metric}
    (h : gather sources = .ok ms) (hm : m ∈ ms) :
    ∃ s ∈ sources, ∃ found, s.outcome = .ok found ∧ m ∈ found := by
  induction sources generalizing ms with
  | nil => cases h; simp at hm
  | cons s rest ih =>
    simp only [gather] at h
    cases hs : s.outcome with
    | error cause => rw [hs] at h; cases h
    | ok found =>
      rw [hs] at h
      cases hrest : gather rest with
      | error f => rw [hrest] at h; cases h
      | ok others =>
        rw [hrest] at h
        obtain rfl : found ++ others = ms := by cases h; rfl
        rcases List.mem_append.mp hm with hm | hm
        · exact ⟨s, by simp, found, hs, hm⟩
        · obtain ⟨u, hu, l, hl, hml⟩ := ih hrest hm
          exact ⟨u, by simp [hu], l, hl, hml⟩

/-! ### A poll and the samples -/

theorem mem_place {m x : Metric} {es : List Metric} (h : x ∈ place m es) : x = m ∨ x ∈ es := by
  induction es with
  | nil => simpa [place] using h
  | cons e es ih =>
    simp only [place] at h
    split at h
    · simpa using h
    · simp only [List.mem_cons] at h ⊢
      exact h.imp_right .inr
    · simp only [List.mem_cons] at h ⊢
      rcases h with h | h
      · exact .inr (.inl h)
      · exact (ih h).imp_right .inr

theorem mem_latest_replace {s : Samples} {ms : List Metric} {x : Metric}
    (h : x ∈ (s.replace ms).latest) : x ∈ ms := by
  -- the fold starts with nothing, so whatever it holds was placed from the list
  have key : ∀ (ms es : List Metric),
      x ∈ ms.foldl (fun es m => place m es) es → x ∈ ms ∨ x ∈ es := by
    intro ms
    induction ms with
    | nil => intro es h; exact .inr h
    | cons m ms ih =>
      intro es h
      rcases ih _ h with h | h
      · exact .inl (List.mem_cons_of_mem _ h)
      · rcases mem_place h with rfl | h
        · exact .inl List.mem_cons_self
        · exact .inr h
  simpa using key ms [] h

/-- A poll fails and changes nothing, or it replaces the samples by what the sources measured. -/
theorem poll_cases (s : Samples) (sources : List Sampling) :
    (∃ f, s.poll sources = (.error f, s)) ∨
      ∃ ms, gather sources = .ok ms ∧ s.poll sources = (.ok ms.length, s.replace ms) := by
  simp only [Samples.poll]
  split
  · exact .inl ⟨_, rfl⟩
  · exact .inl ⟨_, rfl⟩
  · rename_i ms _ h
    exact .inr ⟨ms, h, rfl⟩

/-- A report takes nothing, or the samples and behind them all that is pending. -/
theorem takeReport_cases (s : Samples) :
    s.takeReport = ([], s) ∨
      s.takeReport = (s.latest ++ [⟨Catalog.pollCount, .counter s.pending⟩],
        { s with pending := 0 }) := by
  simp only [Samples.takeReport]
  split
  · exact .inl rfl
  · exact .inr rfl

/-! ### What jobs carry -/

/-- The polls that a job carries. -/
def Job.carried (j : Job) : ℤ := j.polls.elim 0 Int64.toInt

/-- The polls that jobs carry altogether. -/
def carried (jobs : List Job) : ℤ := (jobs.map Job.carried).sum

@[simp] theorem carried_nil : carried [] = 0 := rfl

@[simp] theorem carried_cons (j : Job) (jobs : List Job) :
    carried (j :: jobs) = j.carried + carried jobs := by
  simp [carried]

@[simp] theorem carried_append (js ks : List Job) :
    carried (js ++ ks) = carried js + carried ks := by
  simp [carried]

theorem carried_nonneg {jobs : List Job} (h : ∀ j ∈ jobs, 0 ≤ j.carried) : 0 ≤ carried jobs := by
  refine List.sum_nonneg fun x hx => ?_
  obtain ⟨j, hj, rfl⟩ := List.mem_map.mp hx
  exact h j hj

/-- Metrics that count no polls make jobs that carry none. -/
theorem carried_map_of_plain {wrap : Metric → Delivery} {ms : List Metric}
    (h : ∀ m ∈ ms, pollsOf m = none) : carried (ms.map fun m => ⟨wrap m, pollsOf m⟩) = 0 := by
  induction ms with
  | nil => rfl
  | cons m ms ih =>
    rw [List.map_cons, carried_cons, ih fun x hx => h x (List.mem_cons_of_mem _ hx)]
    simp [Job.carried, h m List.mem_cons_self]

/-- **The jobs of a report carry what was pending**, in every mode. -/
theorem carried_plan (mode : ReportMode) {latest : List Metric} {n : Int64}
    (h : ∀ m ∈ latest, pollsOf m = none) :
    carried (plan mode (latest ++ [⟨Catalog.pollCount, .counter n⟩])) = n.toInt := by
  cases mode with
  | batch =>
    have hnone : latest.findSome? pollsOf = none := List.findSome?_eq_none_iff.mpr h
    simp [plan, carriedPolls, List.findSome?_append, hnone, Job.carried]
  | perMetric => simp [plan, carried_map_of_plain h, Job.carried]
  | unary => simp [plan, carried_map_of_plain h, Job.carried]

theorem carried_nonneg_of_mem_plan {mode : ReportMode} {latest : List Metric} {n : Int64} {j : Job}
    (h : ∀ m ∈ latest, pollsOf m = none) (hn : 0 ≤ n.toInt)
    (hj : j ∈ plan mode (latest ++ [⟨Catalog.pollCount, .counter n⟩])) : 0 ≤ j.carried := by
  have single : ∀ {wrap : Metric → Delivery} {m : Metric},
      m ∈ latest ++ [⟨Catalog.pollCount, .counter n⟩] → 0 ≤ Job.carried ⟨wrap m, pollsOf m⟩ := by
    intro wrap m hm
    rcases List.mem_append.mp hm with hm | hm
    · simp [Job.carried, h m hm]
    · obtain rfl := List.mem_singleton.mp hm
      simpa [Job.carried] using hn
  cases mode with
  | batch =>
    have hsum := carried_plan .batch (n := n) h
    obtain rfl := List.mem_singleton.mp hj
    rw [plan, carried_cons, carried_nil, add_zero] at hsum
    rw [hsum]
    exact hn
  | perMetric => obtain ⟨m, hm, rfl⟩ := List.mem_map.mp hj; exact single hm
  | unary => obtain ⟨m, hm, rfl⟩ := List.mem_map.mp hj; exact single hm

/-- The 64-bit sum of what jobs carry is their sum, as long as that fits. -/
theorem toInt_carriedByAll {jobs : List Job} (h : ∀ j ∈ jobs, 0 ≤ j.carried)
    (hfit : carried jobs < 2 ^ 63) : (carriedByAll jobs).toInt = carried jobs := by
  -- the partial sums only grow, so the bound on the last one bounds them all
  have key : ∀ (jobs : List Job) (acc : Int64), (∀ j ∈ jobs, 0 ≤ j.carried) → 0 ≤ acc.toInt →
      acc.toInt + carried jobs < 2 ^ 63 →
      ((jobs.filterMap Job.polls).foldl (· + ·) acc).toInt = acc.toInt + carried jobs := by
    intro jobs
    induction jobs with
    | nil => intro acc _ _ _; simp
    | cons j jobs ih =>
      intro acc hj hacc hfit
      have htail : ∀ k ∈ jobs, 0 ≤ k.carried := fun k hk => hj k (List.mem_cons_of_mem _ hk)
      have hrest : 0 ≤ carried jobs := carried_nonneg htail
      have hhead : 0 ≤ j.carried := hj j List.mem_cons_self
      rw [carried_cons] at hfit ⊢
      cases hp : j.polls with
      | none =>
        have hzero : j.carried = 0 := by simp [Job.carried, hp]
        rw [List.filterMap_cons_none hp, ih acc htail hacc (by omega)]
        omega
      | some n =>
        have hn : j.carried = n.toInt := by simp [Job.carried, hp]
        have hadd : (acc + n).toInt = acc.toInt + n.toInt :=
          toInt_add_of_fits (by omega) (by omega)
        rw [List.filterMap_cons_some hp, List.foldl_cons, ih (acc + n) htail (by omega) (by omega),
          hadd, hn]
        omega
  simpa [carriedByAll] using key jobs 0 h (by simp) (by simpa using hfit)

end Telemetry.Agent
