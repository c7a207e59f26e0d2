import Telemetry.Proofs.Agent.Reports

/-!
# What samples tell

Samples are polled, reported and given polls back in any order. Beside them stands a diary: what
each poll that succeeded measured, how many polls each return gave back, and all reports. The diary
says what the samples are, as long as the number of pending polls fits into 64 bits: they are the
last metrics of each name that the last successful poll measured, in the order of the names, and
the pending polls are those that succeeded and those that were given back, less those that reports
carried away.

## Main definitions

* `Telemetry.Agent.measured?` — what a poll measures
* `Telemetry.Agent.Latest` — the last metrics of each name, in the order of the names
* `Telemetry.Agent.Diary` — samples with their past
* `Telemetry.Agent.Diary.Tells` — what comes next, as the past tells it

## Main results

* `Telemetry.Agent.latest_replace` — the last metrics of each name are what a poll leaves
* `Telemetry.Agent.Diary.past_tells` — the past tells what comes next
-/

namespace Telemetry.Agent

/-! ### What a poll measures -/

/-- What a poll measures: what all sources found, in their order. Nothing if one of them failed or
if none of them found anything. -/
def measured? (sources : List Sampling) : Option (List Metric) :=
  let found : Option (List (List Metric)) := sources.mapM fun s => s.outcome.toOption
  (found.map List.flatten).filter fun ms => !ms.isEmpty

theorem toOption_gather (sources : List Sampling) :
    (gather sources).toOption
      = (sources.mapM fun s : Sampling => s.outcome.toOption).map List.flatten := by
  induction sources with
  | nil => rfl
  | cons s rest ih =>
    rw [gather, List.mapM_cons]
    cases s.outcome with
    | error cause => rfl
    | ok ms =>
      have hrest :
          ((gather rest).map (ms ++ ·)).toOption = (gather rest).toOption.map (ms ++ ·) := by
        cases gather rest <;> rfl
      dsimp only
      rw [hrest, ih]
      cases rest.mapM fun s : Sampling => s.outcome.toOption <;> rfl

theorem measured?_eq (sources : List Sampling) :
    measured? sources = (gather sources).toOption.filter fun ms => !ms.isEmpty := by
  rw [toOption_gather, measured?]

theorem ne_nil_of_measured? {sources : List Sampling} {ms : List Metric}
    (h : measured? sources = some ms) : ms ≠ [] := by
  rw [measured?, Option.filter_eq_some_iff] at h
  simpa using h.2

/-- A poll that measures something replaces the samples. -/
theorem poll_of_measured? (s : Samples) {sources : List Sampling} {ms : List Metric}
    (h : measured? sources = some ms) : s.poll sources = (.ok ms.length, s.replace ms) := by
  have hne := ne_nil_of_measured? h
  rw [measured?_eq, Option.filter_eq_some_iff] at h
  rw [Samples.poll]
  cases hgather : gather sources with
  | error f => simp [hgather, Except.toOption] at h
  | ok found =>
    obtain rfl : found = ms := by simpa [hgather, Except.toOption] using h.1
    split <;> simp_all

/-- A poll that measures nothing fails and changes nothing. -/
theorem poll_of_not_measured? (s : Samples) {sources : List Sampling}
    (h : measured? sources = none) : ∃ f, s.poll sources = (.error f, s) := by
  rw [measured?_eq] at h
  rw [Samples.poll]
  split
  · exact ⟨_, rfl⟩
  · exact ⟨_, rfl⟩
  · rename_i ms hne hgather
    simp only [hgather, Except.toOption, Option.filter_some, ite_eq_right_iff] at h
    simp_all

/-! ### The last metrics of each name -/

/-- Are these the last metrics of each name, one for each, in the order of the names? -/
structure Latest (ms es : List Metric) : Prop where
  ascending : es.Pairwise fun a b => a.id < b.id
  last : ∀ id, es.filter (fun e => e.id = id) = (ms.filter fun m => m.id = id).getLast?.toList

theorem filter_eq_nil_of_lt {es : List Metric} {id : String}
    (h : ∀ e ∈ es, compare id e.id = .lt) : es.filter (fun e => e.id = id) = [] := by
  refine List.filter_eq_nil_iff.mpr fun e he heq => ?_
  have hlt := h e he
  rw [of_decide_eq_true heq, Std.ReflOrd.compare_self] at hlt
  cases hlt

/-- A metric takes the place of the one with its name, and leaves the others where they are. -/
theorem filter_place {m : Metric} {es : List Metric}
    (h : es.Pairwise fun a b => compare a.id b.id = .lt) (id : String) :
    (place m es).filter (fun e => e.id = id)
      = if m.id = id then [m] else es.filter fun e => e.id = id := by
  induction es with
  | nil => by_cases hid : m.id = id <;> simp [place, hid]
  | cons e es ih =>
    obtain ⟨hhead, htail⟩ := List.pairwise_cons.mp h
    rw [place]
    cases hcompare : compare m.id e.id with
    | lt =>
      have hafter : ∀ x ∈ e :: es, compare m.id x.id = .lt := by
        intro x hx
        rcases List.mem_cons.mp hx with rfl | hx
        · exact hcompare
        · exact Std.TransCmp.lt_trans hcompare (hhead x hx)
      by_cases hid : m.id = id
      · rw [List.filter_cons_of_pos (by simpa using hid), if_pos hid,
          filter_eq_nil_of_lt (hid ▸ hafter)]
      · rw [List.filter_cons_of_neg (by simpa using hid), if_neg hid]
    | eq =>
      have hname : m.id = e.id := Std.LawfulEqOrd.eq_of_compare hcompare
      by_cases hid : m.id = id
      · rw [List.filter_cons_of_pos (by simpa using hid), if_pos hid,
          filter_eq_nil_of_lt fun x hx => hid ▸ hname ▸ hhead x hx]
      · rw [List.filter_cons_of_neg (by simpa using hid), if_neg hid,
          List.filter_cons_of_neg (by simpa [← hname] using hid)]
    | gt =>
      by_cases hid : e.id = id
      · have hne : m.id ≠ id := by
          rintro rfl
          rw [hid, Std.ReflOrd.compare_self] at hcompare
          cases hcompare
        rw [List.filter_cons_of_pos (by simpa using hid), ih htail, if_neg hne, if_neg hne,
          List.filter_cons_of_pos (by simpa using hid)]
      · rw [List.filter_cons_of_neg (by simpa using hid), ih htail,
          List.filter_cons_of_neg (by simpa using hid)]

theorem filter_foldl_place (ms : List Metric) (id : String) :
    (ms.foldl (fun es m => place m es) []).filter (fun e => e.id = id)
      = (ms.filter fun m => m.id = id).getLast?.toList := by
  induction ms using List.reverseRecOn with
  | nil => rfl
  | append_singleton ms m ih =>
    have hascending : List.Pairwise _ (ms.foldl (fun es m => place m es) []) :=
      Samples.ascending_replace {} ms
    rw [List.foldl_concat, filter_place hascending, ih, List.filter_append]
    by_cases hid : m.id = id
    · rw [if_pos hid, List.filter_cons_of_pos (by simpa using hid), List.filter_nil,
        List.getLast?_concat]
      rfl
    · rw [if_neg hid, List.filter_cons_of_neg (by simpa using hid), List.filter_nil,
        List.append_nil]

/-- **A poll leaves the last metrics of each name**, in the order of the names. -/
theorem latest_replace (s : Samples) (ms : List Metric) : Latest ms (s.replace ms).latest where
  ascending := (Samples.ascending_replace s ms).imp compareOfLessAndEq_eq_lt.mp
  last := filter_foldl_place ms

theorem Latest.eq_nil_iff {ms es : List Metric} (h : Latest ms es) : es = [] ↔ ms = [] := by
  constructor
  · rintro rfl
    refine List.eq_nil_iff_forall_not_mem.mpr fun m hm => ?_
    have hnone : (ms.filter fun x => x.id = m.id).getLast? = none := by
      simpa using (h.last m.id).symm
    have hmem : m ∈ ms.filter fun x => x.id = m.id := List.mem_filter.mpr ⟨hm, by simp⟩
    rw [List.getLast?_eq_none_iff.mp hnone] at hmem
    cases hmem
  · rintro rfl
    refine List.eq_nil_iff_forall_not_mem.mpr fun e he => ?_
    have hmem : e ∈ es.filter fun x => x.id = e.id := List.mem_filter.mpr ⟨he, by simp⟩
    rw [h.last e.id] at hmem
    cases hmem

/-! ### Samples and their past -/

/-- What is done with samples. -/
inductive Use where
  | poll (sources : List Sampling)
  | report
  | requeue (polls : Int64)

/-- Samples with their past: what each poll that succeeded measured, the polls that were given
back, and the reports that were made, each with the last one at the end. -/
structure Diary where
  samples : Samples := {}
  measured : List (List Metric) := []
  returned : List Int64 := []
  reports : List (List Metric) := []

/-- The polls that a report carries in its last metric. -/
def carriedBy (report : List Metric) : ℤ := (report.getLast?.bind pollsOf).elim 0 Int64.toInt

@[simp] theorem carriedBy_concat (es : List Metric) (n : Int64) :
    carriedBy (es ++ [⟨Catalog.pollCount, .counter n⟩]) = n.toInt := by
  simp [carriedBy]

namespace Diary

/-- The samples are used. -/
def next (d : Diary) : Use → Diary
  | .poll sources => { d with
      samples := (d.samples.poll sources).2
      measured := d.measured ++ (measured? sources).toList }
  | .report => { d with
      samples := d.samples.takeReport.2
      reports := d.reports ++ [d.samples.takeReport.1] }
  | .requeue polls => { d with
      samples := d.samples.requeue polls
      returned := d.returned ++ [polls] }

/-- The samples are used over and over. -/
def run (uses : List Use) : Diary := uses.foldl next {}

/-- The polls that succeeded and those that were given back, less those that reports carried. -/
def balance (d : Diary) : ℤ :=
  d.measured.length + (d.returned.map Int64.toInt).sum - (d.reports.map carriedBy).sum

/-- Does the balance fit into 64 bits? -/
def Fits (d : Diary) : Prop := -2 ^ 63 ≤ d.balance ∧ d.balance < 2 ^ 63

instance (d : Diary) : Decidable d.Fits := inferInstanceAs (Decidable (_ ∧ _))

/-- What comes next, as the past tells it. -/
structure Tells (d : Diary) : Prop where
  /-- A poll that fails changes nothing. -/
  fails : ∀ sources, measured? sources = none →
    ∃ f, d.samples.poll sources = (.error f, d.samples)
  /-- One that succeeds replaces all samples and adds one pending poll. -/
  replaces : ∀ sources ms, measured? sources = some ms →
    ∃ es, Latest ms es ∧ d.samples.poll sources = (.ok ms.length, ⟨es, d.samples.pending + 1⟩)
  /-- What is pending is the balance. -/
  pending : d.samples.pending.toInt = d.balance
  /-- Before the first success there is nothing to report. -/
  nothing : d.measured = [] → d.samples.takeReport = ([], d.samples)
  /-- Later a report has the metrics of the last success, and behind them what is pending. -/
  reports : ∀ ms, d.measured.getLast? = some ms →
    Latest ms d.samples.latest ∧
    d.samples.takeReport = (d.samples.latest ++ [⟨Catalog.pollCount, .counter d.samples.pending⟩],
      { d.samples with pending := 0 })
  /-- The jobs of a report deliver it once, in its order. -/
  plans : ∀ mode, (plan mode d.samples.takeReport.1).flatMap (fun j => j.delivery.metrics)
    = d.samples.takeReport.1

/-- What holds of samples and their past at any time. -/
structure Kept (d : Diary) : Prop where
  pending : d.samples.pending.toInt = d.balance
  latest : Latest (d.measured.getLast?.getD []) d.samples.latest
  found : ∀ ms ∈ d.measured, ms ≠ []

theorem kept_empty : Kept {} where
  pending := rfl
  latest := ⟨.nil, fun _ => rfl⟩
  found := by simp

theorem Kept.poll {d : Diary} (h : d.Kept) {sources : List Sampling}
    (hfits : (d.next (.poll sources)).Fits) : (d.next (.poll sources)).Kept := by
  cases hmeasured : measured? sources with
  | none =>
    obtain ⟨f, hpoll⟩ := poll_of_not_measured? d.samples hmeasured
    have hsame : d.next (.poll sources) = d := by simp [next, hmeasured, hpoll]
    rw [hsame]
    exact h
  | some ms =>
    have hpoll := poll_of_measured? d.samples hmeasured
    have hnext : d.next (.poll sources) =
        { d with samples := d.samples.replace ms, measured := d.measured ++ [ms] } := by
      simp [next, hmeasured, hpoll]
    rw [hnext] at hfits ⊢
    have hbalance : balance { d with
        samples := d.samples.replace ms, measured := d.measured ++ [ms] } = d.balance + 1 := by
      simp only [balance, List.length_append, List.length_singleton, Nat.cast_add, Nat.cast_one]
      omega
    refine ⟨?_, ?_, ?_⟩
    · obtain ⟨hlo, hhi⟩ := hfits
      have hone : (1 : Int64).toInt = 1 := rfl
      rw [hbalance] at hlo hhi ⊢
      rw [← h.pending] at hlo hhi ⊢
      exact toInt_add_of_fits (by omega) (by omega)
    · simpa using latest_replace d.samples ms
    · intro l hl
      rcases List.mem_append.mp hl with hl | hl
      · exact h.found l hl
      · rw [List.mem_singleton.mp hl]
        exact ne_nil_of_measured? hmeasured

theorem Kept.takeReport {d : Diary} (h : d.Kept) :
    d.measured = [] ∧ d.samples.takeReport = ([], d.samples) ∨
    (∃ ms, d.measured.getLast? = some ms) ∧
      d.samples.takeReport =
        (d.samples.latest ++ [⟨Catalog.pollCount, .counter d.samples.pending⟩],
          { d.samples with pending := 0 }) := by
  cases hlast : d.measured.getLast? with
  | none =>
    have hnone : d.measured = [] := List.getLast?_eq_none_iff.mp hlast
    have hempty : d.samples.latest = [] := h.latest.eq_nil_iff.mpr (by simp [hlast])
    exact .inl ⟨hnone, by simp [Samples.takeReport, hempty]⟩
  | some ms =>
    have hne : ms ≠ [] := h.found ms (List.mem_of_getLast? hlast)
    have hlatest : d.samples.latest ≠ [] := by
      rw [Ne, h.latest.eq_nil_iff, hlast]
      exact hne
    exact .inr ⟨⟨ms, rfl⟩, by simp [Samples.takeReport, hlatest]⟩

theorem Kept.report {d : Diary} (h : d.Kept) : (d.next .report).Kept := by
  rcases h.takeReport with ⟨-, htake⟩ | ⟨-, htake⟩
  · refine ⟨?_, ?_, h.found⟩
    · simp [next, htake, balance, carriedBy, h.pending]
    · simp only [next, htake]
      exact h.latest
  · refine ⟨?_, ?_, h.found⟩
    · have hpending := h.pending
      simp only [next, htake, balance, List.map_append, List.sum_append, List.map_cons,
        List.map_nil, List.sum_singleton, carriedBy_concat, Int64.toInt_zero] at hpending ⊢
      omega
    · simp only [next, htake]
      exact h.latest

theorem Kept.requeue {d : Diary} (h : d.Kept) {polls : Int64}
    (hfits : (d.next (.requeue polls)).Fits) : (d.next (.requeue polls)).Kept := by
  have hbalance : (d.next (.requeue polls)).balance = d.balance + polls.toInt := by
    simp only [next, balance, List.map_append, List.sum_append, List.map_cons, List.map_nil,
      List.sum_singleton]
    omega
  refine ⟨?_, h.latest, h.found⟩
  obtain ⟨hlo, hhi⟩ := hfits
  rw [hbalance] at hlo hhi ⊢
  rw [← h.pending] at hlo hhi ⊢
  exact toInt_add_of_fits hlo hhi

theorem Kept.next {d : Diary} (h : d.Kept) {use : Use} (hfits : (d.next use).Fits) :
    (d.next use).Kept := by
  cases use with
  | poll sources => exact h.poll hfits
  | report => exact h.report
  | requeue polls => exact h.requeue hfits

theorem kept_run {uses : List Use} (hfits : ∀ before, before <+: uses → (run before).Fits) :
    (run uses).Kept := by
  -- on the last use: everything before it is a prefix, and so are its prefixes
  induction uses using List.reverseRecOn with
  | nil => exact kept_empty
  | append_singleton uses use ih =>
    have hrun : run (uses ++ [use]) = (run uses).next use := List.foldl_concat ..
    have hkept := ih fun before hbefore => hfits before (hbefore.trans (List.prefix_append _ _))
    rw [hrun]
    exact hkept.next (hrun ▸ hfits _ (List.prefix_refl _))

theorem Kept.tells {d : Diary} (h : d.Kept) : d.Tells where
  fails _ := poll_of_not_measured? d.samples
  replaces _ ms hmeasured :=
    ⟨_, latest_replace d.samples ms, poll_of_measured? d.samples hmeasured⟩
  pending := h.pending
  nothing hnone := by
    rcases h.takeReport with ⟨-, htake⟩ | ⟨⟨ms, hlast⟩, -⟩
    · exact htake
    · simp [hnone] at hlast
  reports ms hlast := by
    rcases h.takeReport with ⟨hnone, -⟩ | ⟨-, htake⟩
    · simp [hnone] at hlast
    · have hlatest := h.latest
      rw [hlast] at hlatest
      exact ⟨hlatest, htake⟩
  plans mode := metrics_plan mode _

/-- **The past of samples tells what comes next**, whatever was done with them, as long as the
number of pending polls fitted into 64 bits all the time. -/
theorem past_tells (uses : List Use) (hfits : ∀ before, before <+: uses → (run before).Fits) :
    (run uses).Tells :=
  (kept_run hfits).tells

/-- Two sources measure a name between them twice; then one fails; a report is made, its polls are
given back, and there is one more poll. -/
theorem past_tells_requeued :
    let uses : List Use := [
      .report,
      .poll [⟨"memory", .ok [⟨"used", .gauge ⟨1⟩⟩, ⟨"free", .gauge ⟨2⟩⟩]⟩,
        ⟨"mine", .ok [⟨"used", .counter 3⟩]⟩],
      .poll [⟨"memory", .ok [⟨"used", .gauge ⟨4⟩⟩]⟩, ⟨"mine", .error "gone"⟩],
      .report, .requeue 1,
      .poll [⟨"mine", .ok [⟨"used", .counter 5⟩, ⟨"free", .gauge ⟨6⟩⟩, ⟨"used", .counter 7⟩]⟩]]
    (∀ before, before <+: uses → (run before).Fits) ∧
      (run uses).samples.takeReport =
        ([⟨"free", .gauge ⟨6⟩⟩, ⟨"used", .counter 7⟩, ⟨"PollCount", .counter 2⟩],
          ⟨[⟨"free", .gauge ⟨6⟩⟩, ⟨"used", .counter 7⟩], 0⟩) ∧
      (run uses).samples.pending.toInt = 2 := by
  intro uses
  have hfits : ∀ before, before <+: uses → (run before).Fits := by
    intro before hbefore
    have hall : ∀ before ∈ uses.inits, (run before).Fits := by decide +kernel
    exact hall before ((List.mem_inits _ _).mpr hbefore)
  have htells := past_tells uses hfits
  obtain ⟨-, htake⟩ := htells.reports
    [⟨"used", .counter 5⟩, ⟨"free", .gauge ⟨6⟩⟩, ⟨"used", .counter 7⟩] (by decide +kernel)
  exact ⟨hfits, htake.trans (by decide +kernel), htells.pending.trans (by decide +kernel)⟩

end Diary
end Telemetry.Agent
