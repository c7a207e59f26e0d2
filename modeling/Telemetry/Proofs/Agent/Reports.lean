import Telemetry.Proofs.Agent.Carried
import Telemetry.Proofs.Http.Merging

/-!
# Levels in reports

The samples of a poll have distinct names, so a report has at most one level for a name, and so has
each of its jobs. Among jobs that are numbered one after the other, the level of the last one that
has any is the newest.

A delivery may give a server another level than it has, and one for another name. What it says of a
name is kept if neither happens to that name.

## Main definitions

* `Telemetry.Agent.Samples.Ascending` — samples in the order of their distinct names
* `Telemetry.Agent.Newest` — the level of the last report that has one for a name
* `Telemetry.Agent.Delivery.Keeps` — a delivery that gives a server the levels it has for a name

## Main results

* `Telemetry.Agent.Samples.Ascending.poll` — polls keep the order
* `Telemetry.Agent.exists_last_job` — the last job that has a level for a name
* `Telemetry.Agent.Delivery.Gives.levels` — what a delivery gives for a name
-/

namespace Telemetry

/-! ### Levels for a name -/

theorem mem_levels_iff {id : String} {x : Binary64} {ms : List Metric} :
    x ∈ levels id ms ↔ ⟨id, .gauge x⟩ ∈ ms := by
  rw [levels, List.mem_filterMap]
  constructor
  · rintro ⟨⟨name, y | d⟩, hm, hx⟩
    · by_cases hname : name = id
      · subst hname
        obtain rfl : y = x := by simpa using hx
        exact hm
      · simp [hname] at hx
    · cases hx
  · intro hm
    exact ⟨_, hm, if_pos rfl⟩

/-- Metrics with distinct names have at most one level for a name. -/
theorem length_levels_le_one {ms : List Metric} (h : ms.Pairwise fun a b => a.id ≠ b.id)
    (id : String) : (levels id ms).length ≤ 1 := by
  induction ms with
  | nil => exact Nat.zero_le 1
  | cons m ms ih =>
    obtain ⟨hm, hms⟩ := List.pairwise_cons.mp h
    rw [← List.singleton_append, levels_append]
    obtain ⟨name, x | d⟩ := m
    · rw [levels_gauge]
      by_cases hname : name = id
      · have hnone : levels id ms = [] := by
          rw [levels_eq_nil_iff, List.mem_map]
          rintro ⟨m', hm', hkey⟩
          exact hm m' hm' (hname.trans (congrArg Key.id hkey).symm)
        rw [if_pos hname, hnone]
        exact Nat.le_refl 1
      · rw [if_neg hname]
        exact ih hms
    · exact ih hms

namespace Agent

/-! ### Samples -/

/-- Samples in the order of their names, which are distinct. -/
def Samples.Ascending (s : Samples) : Prop :=
  s.latest.Pairwise fun a b => compare a.id b.id = .lt

theorem place_ascending {m : Metric} {es : List Metric}
    (h : es.Pairwise fun a b => compare a.id b.id = .lt) :
    (place m es).Pairwise fun a b => compare a.id b.id = .lt := by
  induction es with
  | nil => exact List.pairwise_singleton _ m
  | cons e es ih =>
    obtain ⟨hhead, htail⟩ := List.pairwise_cons.mp h
    rw [place]
    split
    · rename_i hlt
      refine List.pairwise_cons.mpr ⟨fun x hx => ?_, h⟩
      rcases List.mem_cons.mp hx with rfl | hx
      · exact hlt
      · exact Std.TransCmp.lt_trans hlt (hhead x hx)
    · rename_i heq
      have hname : m.id = e.id := Std.LawfulEqOrd.eq_of_compare heq
      exact List.pairwise_cons.mpr ⟨fun x hx => hname ▸ hhead x hx, htail⟩
    · rename_i hgt
      refine List.pairwise_cons.mpr ⟨fun x hx => ?_, ih htail⟩
      rcases mem_place hx with rfl | hx
      · exact Std.OrientedCmp.lt_of_gt hgt
      · exact hhead x hx

namespace Samples

theorem ascending_replace (s : Samples) (ms : List Metric) : (s.replace ms).Ascending := by
  have key : ∀ (ms es : List Metric), (es.Pairwise fun a b => compare a.id b.id = .lt) →
      (ms.foldl (fun es m => place m es) es).Pairwise fun a b => compare a.id b.id = .lt := by
    intro ms
    induction ms with
    | nil => exact fun _ hes => hes
    | cons m ms ih => exact fun es hes => ih _ (place_ascending hes)
  exact key ms [] .nil

variable {s : Samples}

/-- **Polls keep the order** of the samples, whatever the sources measure. -/
theorem Ascending.poll (h : s.Ascending) (sources : List Sampling) :
    (s.poll sources).2.Ascending := by
  rcases poll_cases s sources with ⟨f, hpoll⟩ | ⟨ms, -, hpoll⟩
  · rw [hpoll]
    exact h
  · rw [hpoll]
    exact ascending_replace s ms

/-- A report has at most one level for a name, since the polls behind the samples have none. -/
theorem Ascending.length_levels (h : s.Ascending) (id : String) :
    (levels id s.takeReport.1).length ≤ 1 := by
  have hnames : s.latest.Pairwise fun a b => a.id ≠ b.id := by
    refine h.imp fun hlt heq => ?_
    rw [heq, Std.ReflOrd.compare_self] at hlt
    cases hlt
  rcases takeReport_cases s with htake | htake
  · rw [htake]
    exact Nat.zero_le 1
  · rw [htake, levels_append, levels_counter, List.append_nil]
    exact length_levels_le_one hnames id

end Samples

/-! ### The newest level -/

/-- Is this the level of the last report that has one for a name? -/
def Newest (reports : List (List Metric)) (id : String) (x : Binary64) : Prop :=
  ∃ before report after, reports = before ++ report :: after ∧ ⟨id, .gauge x⟩ ∈ report ∧
    ∀ later ∈ after, ∀ y, ⟨id, .gauge y⟩ ∉ later

/-- If a report has at most one level for a name, the newest is the last of all. -/
theorem Newest.getLast? {reports : List (List Metric)} {id : String} {x : Binary64}
    (h : Newest reports id x) (hone : ∀ report ∈ reports, (levels id report).length ≤ 1) :
    (levels id reports.flatten).getLast? = some x := by
  obtain ⟨before, report, after, rfl, hx, hafter⟩ := h
  have hreport : levels id report = [x] := by
    have hle := hone report (List.mem_append_right _ List.mem_cons_self)
    have hmem := mem_levels_iff.mpr hx
    obtain ⟨y, hy⟩ := List.length_eq_one_iff.mp
      (Nat.le_antisymm hle (List.length_pos_of_mem hmem))
    rw [hy] at hmem ⊢
    rw [List.mem_singleton.mp hmem]
  have hnone : levels id after.flatten = [] := by
    rw [List.eq_nil_iff_forall_not_mem]
    intro y hy
    obtain ⟨later, hlater, hmem⟩ := List.mem_flatten.mp (mem_levels_iff.mp hy)
    exact hafter later hlater y hmem
  rw [List.flatten_append, List.flatten_cons, levels_append, levels_append, hreport, hnone,
    List.append_nil, List.getLast?_concat]

/-- The levels that a job has for a name. -/
def Job.levels (j : Job) (id : String) : List Binary64 := Telemetry.levels id j.delivery.metrics

/-- Between them the jobs of a report deliver the report, in every mode. -/
theorem metrics_plan (mode : ReportMode) (report : List Metric) :
    (plan mode report).flatMap (fun j => j.delivery.metrics) = report := by
  have hsingle : ∀ wrap : Metric → Delivery, (∀ m, (wrap m).metrics = [m]) →
      (report.map fun m => (⟨wrap m, pollsOf m⟩ : Job)).flatMap (fun j => j.delivery.metrics)
        = report := by
    intro wrap hwrap
    rw [List.flatMap_map]
    simp only [hwrap, List.flatMap_singleton']
  cases mode with
  | batch => exact List.flatMap_singleton _ _
  | perMetric => exact hsingle .document fun _ => rfl
  | unary => exact hsingle .path fun _ => rfl

/-- A job has no more levels for a name than its report. -/
theorem length_levels_of_mem_plan {mode : ReportMode} {report : List Metric} {j : Job}
    (hj : j ∈ plan mode report) (id : String) :
    (j.levels id).length ≤ (levels id report).length := by
  obtain ⟨before, after, hsplit⟩ := List.append_of_mem hj
  rw [← metrics_plan mode report, hsplit, List.flatMap_append, List.flatMap_cons, levels_append,
    levels_append, List.length_append, List.length_append, Job.levels]
  omega

/-- The last of all levels that some jobs have for a name is the last of one job, and no job behind
that one has any. -/
theorem exists_last_job {jobs : List Job} {id : String} {x : Binary64}
    (h : (levels id (jobs.flatMap fun j => j.delivery.metrics)).getLast? = some x) :
    ∃ (n : ℕ) (j : Job), jobs[n]? = some j ∧ (j.levels id).getLast? = some x ∧
      ∀ k > n, ∀ j' : Job, jobs[k]? = some j' → j'.levels id = [] := by
  induction jobs using List.reverseRecOn with
  | nil => cases h
  | append_singleton jobs j ih =>
    rw [List.flatMap_append, levels_append, List.flatMap_singleton] at h
    by_cases hj : j.levels id = []
    · rw [show levels id j.delivery.metrics = [] from hj, List.append_nil] at h
      obtain ⟨n, j', hn, hlast, hafter⟩ := ih h
      have hlt : n < jobs.length := (List.getElem?_eq_some_iff.mp hn).1
      refine ⟨n, j', by rw [List.getElem?_append_left hlt, hn], hlast, fun k hk j'' hj'' => ?_⟩
      rcases Nat.lt_or_ge k jobs.length with hlt | hge
      · rw [List.getElem?_append_left hlt] at hj''
        exact hafter k hk j'' hj''
      · rw [List.getElem?_append_right hge] at hj''
        rwa [List.mem_singleton.mp (List.mem_of_getElem? hj'')]
    · refine ⟨jobs.length, j, List.getElem?_concat_length, ?_, fun k hk j' hj' => ?_⟩
      · rwa [show levels id j.delivery.metrics = j.levels id from rfl,
          List.getLast?_append_of_ne_nil _ hj] at h
      · rw [List.getElem?_eq_none (by simpa using Nat.succ_le_of_lt hk)] at hj'
        cases hj'

/-! ### What a server is given for a name -/

/-- Does a delivery give a server the levels that it has for a name, if it gives it anything? In a
document each of them, if it is a finite number, has to be read as itself; in a path the address
has to keep the name, or drop it, and must not make it of another. -/
def Delivery.Keeps (id : String) : Delivery → Prop
  | .document m => ∀ x ∈ levels id [m], x.isFinite = true → (Value.gauge x).Survives
  | .batch ms => ∀ x ∈ levels id ms, x.isFinite = true → (Value.gauge x).Survives
  | .path m => ∀ x, m.value = .gauge x → ∀ kept ∈ Url.kept? m.id, kept = id ↔ m.id = id

theorem levels_of_readsAs {m m' : Metric} (h : m.ReadsAs m') {id : String}
    (hkeeps : ∀ x ∈ levels id [m], x.isFinite = true → (Value.gauge x).Survives) :
    levels id [m'] = levels id [m] := by
  obtain ⟨name, v⟩ := m'
  obtain ⟨name', x | n⟩ := m
  · obtain ⟨-, rfl, hread⟩ := h
    by_cases hname : name = id
    · have hfinite : x.isFinite = true := by
        obtain ⟨y, hy, -⟩ := hread
        exact Json.isFinite_of_binary64_number hy
      have hx : x ∈ levels id [⟨name, .gauge x⟩] := by
        rw [levels_gauge, if_pos hname]
        exact List.mem_singleton_self x
      obtain rfl : v = .gauge x := hread.eq_of_survives (hkeeps x hx hfinite)
      rfl
    · obtain ⟨y, -, -, rfl⟩ := hread
      rw [levels_gauge, levels_gauge, if_neg hname, if_neg hname]
  · obtain ⟨-, rfl, rfl⟩ := h
    rfl

/-- **What a delivery gives for a name** is what it has for it, if it keeps what it says of it. -/
theorem Delivery.Gives.levels {d : Delivery} {ms : List Metric} (h : d.Gives ms) {id : String}
    (hkeeps : d.Keeps id) : levels id ms = levels id d.metrics := by
  cases h with
  | document h => exact levels_of_readsAs h hkeeps
  | batch h =>
    replace hkeeps : ∀ x ∈ Telemetry.levels id _, _ := hkeeps
    induction h with
    | nil => rfl
    | @cons m m' ms ms' hm _ ih =>
      rw [← List.singleton_append, levels_append] at hkeeps
      have hfirst := levels_of_readsAs hm fun x hx =>
        hkeeps x (List.mem_append_left _ hx)
      have hrest := ih fun x hx => hkeeps x (List.mem_append_right _ hx)
      rw [← List.singleton_append, levels_append, hfirst, hrest, ← levels_append,
        List.singleton_append]
      rfl
  | @path m kept hkept hfinite =>
    obtain ⟨name, x | n⟩ := m
    · have hsame : kept = id ↔ name = id := hkeeps x rfl kept hkept
      show Telemetry.levels id [⟨kept, .gauge x⟩] = Telemetry.levels id [⟨name, .gauge x⟩]
      rw [levels_gauge, levels_gauge, if_congr hsame rfl rfl]
    · rfl

end Agent
end Telemetry
