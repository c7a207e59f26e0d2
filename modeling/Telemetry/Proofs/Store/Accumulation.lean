import Telemetry.Proofs.Store.Persistent
import Telemetry.Proofs.Text.Utf8
import Mathlib.Algebra.BigOperators.Group.List.Basic

/-!
# What a table makes of all that was merged into it

The metrics that a table has accepted are its past. A counter stands at the exact sum of the
deltas in the past, a gauge at the last level in it, and neither takes notice of the other. A
metric is refused when the exact sum would leave the range of 64-bit integers, and only then. The
past of a table is computed here from the calls alone, in unbounded integers, without a table.

## Main definitions

* `Telemetry.deltas`, `Telemetry.levels` — what the past says about a name
* `Telemetry.fits`, `Telemetry.fitting`, `Telemetry.misfit?` — what of a batch is accepted
* `Telemetry.history` — the past that calls make
* `Telemetry.Key.Before` — keys in the order of the bytes of their names
* `Telemetry.Table.Reflects` — a table that is what its past says, and answers accordingly

## Main results

* `Telemetry.Table.Holds.merge_of_fits`, `Telemetry.Table.Holds.merge_of_not_fits` — one metric
* `Telemetry.Table.Holds.applyAll` — a batch
* `Telemetry.Table.holds_entries`, `Telemetry.Table.Holds.merges` — a table that had a past already
* `Telemetry.Table.reflects_history` — a table after any calls
-/

namespace Telemetry

open PersistentTable (Saving)

/-! ### The past -/

/-- The deltas that metrics give for a name. -/
def deltas (id : String) (past : List Metric) : List ℤ :=
  past.filterMap fun m =>
    match m.value with
    | .counter d => if m.id = id then some d.toInt else none
    | .gauge _ => none

/-- The levels that metrics give for a name. -/
def levels (id : String) (past : List Metric) : List Binary64 :=
  past.filterMap fun m =>
    match m.value with
    | .gauge x => if m.id = id then some x else none
    | .counter _ => none

/-- Does the exact sum of the deltas stay in the range of 64-bit integers with this metric? -/
def fits (past : List Metric) (m : Metric) : Bool :=
  match m.value with
  | .gauge _ => true
  | .counter d =>
    decide (Int64.minValue.toInt ≤ (deltas m.id past).sum + d.toInt) &&
      decide ((deltas m.id past).sum + d.toInt ≤ Int64.maxValue.toInt)

/-- The metrics of a batch before the first that does not fit. -/
def fitting (past : List Metric) : List Metric → List Metric
  | [] => []
  | m :: ms => if fits past m then m :: fitting (past ++ [m]) ms else []

/-- The first metric of a batch that does not fit. -/
def misfit? (past : List Metric) : List Metric → Option Metric
  | [] => none
  | m :: ms => if fits past m then misfit? (past ++ [m]) ms else some m

/-- The past that calls make, one after the other. -/
def history (calls : List Saving) : List Metric :=
  calls.foldl (fun past c => past ++ fitting past c.metrics) []

theorem deltas_append (id : String) (past ms : List Metric) :
    deltas id (past ++ ms) = deltas id past ++ deltas id ms :=
  List.filterMap_append

theorem levels_append (id : String) (past ms : List Metric) :
    levels id (past ++ ms) = levels id past ++ levels id ms :=
  List.filterMap_append

theorem deltas_counter (id name : String) (d : Int64) :
    deltas id [⟨name, .counter d⟩] = if name = id then [d.toInt] else [] := by
  by_cases h : name = id <;> simp [deltas, h]

@[simp] theorem deltas_gauge (id name : String) (x : Binary64) :
    deltas id [⟨name, .gauge x⟩] = [] := rfl

theorem levels_gauge (id name : String) (x : Binary64) :
    levels id [⟨name, .gauge x⟩] = if name = id then [x] else [] := by
  by_cases h : name = id <;> simp [levels, h]

@[simp] theorem levels_counter (id name : String) (d : Int64) :
    levels id [⟨name, .counter d⟩] = [] := rfl

theorem deltas_eq_nil_iff {id : String} {past : List Metric} :
    deltas id past = [] ↔ ⟨id, .counter⟩ ∉ past.map Metric.key := by
  rw [deltas, List.filterMap_eq_nil_iff, List.mem_map, not_exists]
  refine forall_congr' fun m => ?_
  obtain ⟨name, x | d⟩ := m <;> simp [Metric.key, Metric.kind, Value.kind]

theorem levels_eq_nil_iff {id : String} {past : List Metric} :
    levels id past = [] ↔ ⟨id, .gauge⟩ ∉ past.map Metric.key := by
  rw [levels, List.filterMap_eq_nil_iff, List.mem_map, not_exists]
  refine forall_congr' fun m => ?_
  obtain ⟨name, x | d⟩ := m <;> simp [Metric.key, Metric.kind, Value.kind]

/-- Where nothing is refused, everything is accepted. -/
theorem fitting_eq_self {past ms : List Metric} (h : misfit? past ms = none) :
    fitting past ms = ms := by
  induction ms generalizing past with
  | nil => rfl
  | cons m ms ih =>
    by_cases hm : fits past m
    · rw [misfit?, if_pos hm] at h
      rw [fitting, if_pos hm, ih h]
    · rw [misfit?, if_neg hm] at h
      cases h

/-- What is accepted of a batch stops right before the first metric that does not fit. -/
theorem eq_fitting_append {past ms : List Metric} {m : Metric} (h : misfit? past ms = some m) :
    ∃ after, ms = fitting past ms ++ m :: after := by
  induction ms generalizing past with
  | nil => cases h
  | cons x ms ih =>
    by_cases hx : fits past x
    · rw [misfit?, if_pos hx] at h
      obtain ⟨after, hms⟩ := ih h
      rw [fitting, if_pos hx]
      exact ⟨after, congrArg (x :: ·) hms⟩
    · rw [misfit?, if_neg hx] at h
      cases h
      rw [fitting, if_neg hx]
      exact ⟨ms, rfl⟩

/-! ### The order of keys -/

/-- The order of a listing: by the bytes of the name, and then the gauge before the counter. -/
def Key.Before (a b : Key) : Prop :=
  Bytes.ofText a.id < Bytes.ofText b.id ∨ a.id = b.id ∧ a.kind = .gauge ∧ b.kind = .counter

theorem Key.compare_eq_lt_iff {a b : Key} : compare a b = .lt ↔ a.Before b := by
  obtain ⟨i, k⟩ := a
  obtain ⟨j, l⟩ := b
  have hnames : compare i j = .lt ↔ Bytes.ofText i < Bytes.ofText j :=
    compareOfLessAndEq_eq_lt.trans Bytes.ofText_lt_iff.symm
  have hkinds : compare k.rank l.rank = .lt ↔ k = .gauge ∧ l = .counter := by
    cases k <;> cases l <;> decide
  have hsame : compare i j = .eq ↔ i = j := Std.LawfulEqOrd.compare_eq_iff_eq
  have hlex : compare (⟨i, k⟩ : Key) ⟨j, l⟩ = (compare i j).then (compare k.rank l.rank) := rfl
  rw [hlex, Ordering.then_eq_lt, hnames, hsame, hkinds, Key.Before]

namespace Table

variable {t : Table} {past : List Metric}

/-! ### A table and its past -/

/-- A table holds what its past comes to. -/
structure Holds (t : Table) (past : List Metric) : Prop where
  none_iff : ∀ id, t.get? ⟨id, .counter⟩ = none ↔ deltas id past = []
  sum : ∀ {id m}, t.get? ⟨id, .counter⟩ = some m →
    ∃ d, m = ⟨id, .counter d⟩ ∧ d.toInt = (deltas id past).sum
  last : ∀ id, t.get? ⟨id, .gauge⟩ = (levels id past).getLast?.map fun x => ⟨id, .gauge x⟩

theorem holds_empty : empty.Holds [] where
  none_iff id := by simp [empty, get?, deltas]
  sum h := by simp [empty, get?] at h
  last id := by simp [empty, get?, levels]

/-- An entry stands between entries of other keys. -/
theorem entries_of_mem {m : Metric} (hm : m ∈ t.entries) :
    ∃ before after, t.entries = before ++ m :: after ∧ m.key ∉ before.map Metric.key ∧
      m.key ∉ after.map Metric.key := by
  obtain ⟨before, after, hsplit⟩ := List.append_of_mem hm
  have hne := t.keys_ne
  rw [hsplit, List.pairwise_append, List.pairwise_cons] at hne
  obtain ⟨-, ⟨hafter, -⟩, hbefore⟩ := hne
  refine ⟨before, after, hsplit, fun h => ?_, fun h => ?_⟩
  · obtain ⟨x, hx, hkey⟩ := List.mem_map.mp h
    exact hbefore x hx m List.mem_cons_self hkey
  · obtain ⟨x, hx, hkey⟩ := List.mem_map.mp h
    exact hafter x hx hkey.symm

/-- Every table holds what its own entries come to. -/
theorem holds_entries (t : Table) : t.Holds t.entries where
  none_iff id := by
    rw [deltas_eq_nil_iff, ← not_iff_not, not_not, List.mem_map, ← ne_eq,
      Option.ne_none_iff_exists']
    exact exists_congr fun m => get?_eq_some_iff
  sum {id m} hm := by
    obtain ⟨hmem, hkey⟩ := get?_eq_some_iff.mp hm
    obtain ⟨name, x | d⟩ := m
    · cases hkey
    · cases hkey
      refine ⟨d, rfl, ?_⟩
      obtain ⟨before, after, hsplit, hbefore, hafter⟩ := entries_of_mem hmem
      rw [hsplit, List.append_cons, deltas_append, deltas_append, deltas_counter, if_pos rfl,
        deltas_eq_nil_iff.mpr hbefore, deltas_eq_nil_iff.mpr hafter]
      simp
  last id := by
    cases hget : t.get? ⟨id, .gauge⟩ with
    | none =>
      have hnone : levels id t.entries = [] := by
        rw [levels_eq_nil_iff, List.mem_map]
        rintro ⟨m, hmem, hkey⟩
        rw [get?_eq_some_iff.mpr ⟨hmem, hkey⟩] at hget
        cases hget
      rw [hnone]
      rfl
    | some m =>
      obtain ⟨hmem, hkey⟩ := get?_eq_some_iff.mp hget
      obtain ⟨name, x | d⟩ := m
      · cases hkey
        obtain ⟨before, after, hsplit, hbefore, hafter⟩ := entries_of_mem hmem
        rw [hsplit, List.append_cons, levels_append, levels_append, levels_gauge, if_pos rfl,
          levels_eq_nil_iff.mpr hbefore, levels_eq_nil_iff.mpr hafter]
        rfl
      · cases hkey

/-- A level is stored in place of the one before it. -/
theorem Holds.put_gauge (h : t.Holds past) (id : String) (x : Binary64) :
    (t.put ⟨id, .gauge x⟩).Holds (past ++ [⟨id, .gauge x⟩]) where
  none_iff name := by
    rw [get?_put, if_neg (by simp [Metric.key, Metric.kind, Value.kind]), h.none_iff,
      deltas_append, deltas_gauge, List.append_nil]
  sum {name m} hm := by
    rw [get?_put, if_neg (by simp [Metric.key, Metric.kind, Value.kind])] at hm
    rw [deltas_append, deltas_gauge, List.append_nil]
    exact h.sum hm
  last name := by
    rw [get?_put, levels_append, levels_gauge]
    by_cases hname : id = name
    · subst hname
      simp [Metric.key, Metric.kind, Value.kind]
    · have hkey : (⟨id, .gauge x⟩ : Metric).key ≠ ⟨name, .gauge⟩ := by simp [Metric.key, hname]
      rw [if_neg hkey, if_neg hname, List.append_nil, h.last]

/-- A sum is stored when a delta has been added to it. -/
theorem Holds.put_counter (h : t.Holds past) {id : String} {d sum : Int64}
    (hsum : sum.toInt = (deltas id past).sum + d.toInt) :
    (t.put ⟨id, .counter sum⟩).Holds (past ++ [⟨id, .counter d⟩]) where
  none_iff name := by
    rw [get?_put, deltas_append, deltas_counter]
    by_cases hname : id = name
    · subst hname
      simp [Metric.key, Metric.kind, Value.kind]
    · have hkey : (⟨id, .counter sum⟩ : Metric).key ≠ ⟨name, .counter⟩ := by
        simp [Metric.key, hname]
      rw [if_neg hkey, if_neg hname, List.append_nil, h.none_iff]
  sum {name m} hm := by
    rw [get?_put] at hm
    rw [deltas_append, deltas_counter]
    by_cases hname : id = name
    · subst hname
      obtain rfl : ⟨id, .counter sum⟩ = m := by
        simpa [Metric.key, Metric.kind, Value.kind] using hm
      exact ⟨sum, rfl, by simp [hsum]⟩
    · have hkey : (⟨id, .counter sum⟩ : Metric).key ≠ ⟨name, .counter⟩ := by
        simp [Metric.key, hname]
      rw [if_neg hkey] at hm
      rw [if_neg hname, List.append_nil]
      exact h.sum hm
  last name := by
    rw [get?_put, if_neg (by simp [Metric.key, Metric.kind, Value.kind]), h.last,
      levels_append, levels_counter, List.append_nil]

/-! ### One metric -/

/-- What a counter comes to is the exact sum, if that is a 64-bit integer. -/
theorem Holds.merge_counter (h : t.Holds past) (id : String) (d : Int64) :
    merge (t.get? ⟨id, .counter⟩) ⟨id, .counter d⟩ =
      match Integer.int64? ((deltas id past).sum + d.toInt) with
      | some sum => .ok ⟨id, .counter sum⟩
      | none => .error (.overflow id) := by
  cases hget : t.get? ⟨id, .counter⟩ with
  | none =>
    have hnone : deltas id past = [] := (h.none_iff id).mp hget
    simp [merge, hnone, Integer.int64?_toInt]
  | some m =>
    obtain ⟨stored, rfl, hstored⟩ := h.sum hget
    cases hsum : Integer.int64? ((deltas id past).sum + d.toInt) with
    | none => simp only [merge, Option.map_some, hstored, hsum]
    | some sum => simp only [merge, Option.map_some, hstored, hsum]

/-- **A metric that fits is merged**, and it joins the past. -/
theorem Holds.merge_of_fits (h : t.Holds past) {m : Metric} (hm : fits past m = true) :
    ∃ r, merge (t.get? m.key) m = .ok r ∧ (t.put r).Holds (past ++ [m]) := by
  obtain ⟨id, x | d⟩ := m
  · exact ⟨⟨id, .gauge x⟩, by simp [merge], h.put_gauge id x⟩
  · have hrange : Int64.minValue.toInt ≤ (deltas id past).sum + d.toInt ∧
        (deltas id past).sum + d.toInt ≤ Int64.maxValue.toInt := by
      simpa only [fits, Bool.and_eq_true, decide_eq_true_eq] using hm
    have hsum : Integer.int64? ((deltas id past).sum + d.toInt)
        = some (Int64.ofInt ((deltas id past).sum + d.toInt)) := if_pos hrange
    refine ⟨⟨id, .counter (Int64.ofInt ((deltas id past).sum + d.toInt))⟩, ?_,
      h.put_counter (Integer.toInt_of_int64? hsum)⟩
    have hmerge := h.merge_counter id d
    rw [hsum] at hmerge
    exact hmerge

/-- **A metric that does not fit is refused** as the overflow of its counter. -/
theorem Holds.merge_of_not_fits (h : t.Holds past) {m : Metric} (hm : fits past m = false) :
    merge (t.get? m.key) m = .error (.overflow m.id) := by
  obtain ⟨id, x | d⟩ := m
  · cases hm
  · have hrange : ¬ (Int64.minValue.toInt ≤ (deltas id past).sum + d.toInt ∧
        (deltas id past).sum + d.toInt ≤ Int64.maxValue.toInt) := by
      intro hrange
      rw [fits, Bool.and_eq_false_iff, decide_eq_false_iff_not, decide_eq_false_iff_not] at hm
      exact hm.elim (· hrange.1) (· hrange.2)
    have hmerge := h.merge_counter id d
    rw [Integer.int64?, if_neg hrange] at hmerge
    exact hmerge

theorem Holds.apply_of_fits (h : t.Holds past) {m : Metric} (hm : fits past m = true) :
    ∃ r, t.apply m = (.ok r, t.put r) ∧ r.key = m.key ∧ (t.put r).Holds (past ++ [m]) := by
  obtain ⟨r, hmerge, hr⟩ := h.merge_of_fits hm
  exact ⟨r, by rw [apply, hmerge], key_of_merge hmerge, hr⟩

theorem Holds.apply_of_not_fits (h : t.Holds past) {m : Metric} (hm : fits past m = false) :
    t.apply m = (.error (.overflow m.id), t) := by
  rw [apply, h.merge_of_not_fits hm]

/-- Metrics that are all accepted join the past. -/
theorem Holds.merges {u : Table} {ms rs : List Metric} (h : t.Holds past) (hm : t.Merges ms rs u) :
    u.Holds (past ++ ms) := by
  induction hm generalizing past with
  | nil => rwa [List.append_nil]
  | @cons t u m r ms rs hmerge _ ih =>
    cases hfits : fits past m with
    | false =>
      rw [h.merge_of_not_fits hfits] at hmerge
      cases hmerge
    | true =>
      obtain ⟨stored, hstored, hholds⟩ := h.merge_of_fits hfits
      rw [hstored] at hmerge
      cases hmerge
      have hrest := ih hholds
      rwa [List.append_assoc] at hrest

/-! ### A batch -/

/-- Metrics saved one by one: what comes of each, and the table in the end. -/
def applyEach (t : Table) : List Metric → List (Except StoreError Metric) × Table
  | [] => ([], t)
  | m :: ms =>
    ((t.apply m).1 :: ((t.apply m).2.applyEach ms).1, ((t.apply m).2.applyEach ms).2)

theorem applyAll_cons_snd {m r : Metric} (h : merge (t.get? m.key) m = .ok r)
    (ms : List Metric) : (t.applyAll (m :: ms)).2 = ((t.put r).applyAll ms).2 := by
  simp only [Table.applyAll, apply, h]
  rcases (t.put r).applyAll ms with ⟨_ | _, _⟩ <;> rfl

/-- **A batch is merged up to the first metric that does not fit**, and those before it join the
past, as if they had been saved one by one. -/
theorem Holds.applyAll (h : t.Holds past) (ms : List Metric) :
    (t.applyAll ms).2.Holds (past ++ fitting past ms) ∧
      (t.applyEach (fitting past ms)).2 = (t.applyAll ms).2 ∧
      match misfit? past ms with
      | some m => (t.applyAll ms).1 = .error (.overflow m.id)
      | none => ∃ rs, (t.applyAll ms).1 = .ok rs ∧ (t.applyEach ms).1 = rs.map .ok := by
  induction ms generalizing t past with
  | nil => exact ⟨by simpa [Table.applyAll, fitting] using h, rfl, [], rfl, rfl⟩
  | cons m ms ih =>
    cases hm : fits past m with
    | false =>
      have happly := h.apply_of_not_fits hm
      have hall : t.applyAll (m :: ms) = (.error (.overflow m.id), t) := by
        rw [Table.applyAll, happly]
      simp only [hall, fitting, misfit?, hm, Bool.false_eq_true, if_false, List.append_nil]
      exact ⟨h, rfl, trivial⟩
    | true =>
      obtain ⟨r, hmerge, hr⟩ := h.merge_of_fits hm
      obtain ⟨hholds, heach, hresult⟩ := ih hr
      have happly : t.apply m = (.ok r, t.put r) := by rw [apply, hmerge]
      have hfirst := applyAll_cons hmerge ms
      have hstate := applyAll_cons_snd hmerge ms
      simp only [hstate, hfirst, fitting, misfit?, hm, if_true, applyEach, happly]
      refine ⟨by simpa using hholds, heach, ?_⟩
      split at hresult
      · rw [hresult]
        rfl
      · obtain ⟨rs, hrs, hones⟩ := hresult
        exact ⟨r :: rs, by rw [hrs]; rfl, by rw [hones]; rfl⟩

/-! ### Any calls -/

/-- The table after a call. -/
def perform (t : Table) : Saving → Table
  | .one x => (t.apply x).2
  | .batch xs => (t.applyAll xs).2

/-- The table after calls, one after the other. -/
def performAll (t : Table) (calls : List Saving) : Table := calls.foldl perform t

theorem apply_eq_applyAll (t : Table) (m : Metric) : (t.apply m).2 = (t.applyAll [m]).2 := by
  simp only [Table.applyAll]
  rcases t.apply m with ⟨_ | _, _⟩ <;> rfl

/-- Every call adds to the past what of it is accepted. -/
theorem Holds.perform (h : t.Holds past) (c : Saving) :
    (t.perform c).Holds (past ++ fitting past c.metrics) := by
  cases c with
  | one x =>
    rw [Table.perform, apply_eq_applyAll]
    exact (h.applyAll [x]).1
  | batch xs => exact (h.applyAll xs).1

theorem Holds.performAll (h : t.Holds past) (calls : List Saving) :
    (t.performAll calls).Holds
      (calls.foldl (fun past c => past ++ fitting past c.metrics) past) := by
  induction calls generalizing t past with
  | nil => exact h
  | cons c calls ih => exact ih (h.perform c)

/-- The keys of a table are those that were ever accepted. -/
theorem Holds.mem_keys_iff (h : t.Holds past) (k : Key) :
    k ∈ t.entries.map Metric.key ↔ k ∈ past.map Metric.key := by
  have hstored : k ∈ t.entries.map Metric.key ↔ t.get? k ≠ none := by
    rw [List.mem_map, Option.ne_none_iff_exists']
    exact exists_congr fun m => get?_eq_some_iff.symm
  obtain ⟨id, _ | _⟩ := k
  · rw [hstored, h.last, ne_eq, Option.map_eq_none_iff, List.getLast?_eq_none_iff,
      levels_eq_nil_iff, not_not]
  · rw [hstored, ne_eq, h.none_iff, deltas_eq_nil_iff, not_not]

/-- A table is what its past says, and it answers every call accordingly. -/
structure Reflects (t : Table) (past : List Metric) : Prop where
  /-- A counter is missing if there was no delta for it. -/
  missing : ∀ id, t.get? ⟨id, .counter⟩ = none ↔ deltas id past = []
  /-- A counter stands at the exact sum. -/
  sum : ∀ id m, t.get? ⟨id, .counter⟩ = some m →
    ∃ d, m = ⟨id, .counter d⟩ ∧ d.toInt = (deltas id past).sum
  /-- A gauge stands at the last level. -/
  last : ∀ id, t.get? ⟨id, .gauge⟩ = (levels id past).getLast?.map fun x => ⟨id, .gauge x⟩
  /-- A metric that fits is stored. -/
  accepted : ∀ m, fits past m = true →
    ∃ r, (t.apply m).1 = .ok r ∧ (t.apply m).2.get? m.key = some r
  /-- A metric that does not fit is refused, and nothing changes. -/
  refused : ∀ m, fits past m = false → t.apply m = (.error (.overflow m.id), t)
  /-- Nothing is stored under another key, not even under one with the same name. -/
  apart : ∀ m k, k ≠ m.key → (t.apply m).2.get? k = t.get? k
  /-- A batch is merged up to the first metric that does not fit, as if one by one. -/
  batch : ∀ ms, (t.applyAll ms).2 = (t.applyEach (fitting past ms)).2
  /-- That metric is what the batch is refused for. -/
  batchRefused : ∀ ms m, misfit? past ms = some m →
    (t.applyAll ms).1 = .error (.overflow m.id) ∧ ∃ after, ms = fitting past ms ++ m :: after
  /-- A batch in which everything fits gives the records that its metrics give one by one. -/
  batchAccepted : ∀ ms, misfit? past ms = none →
    ∃ rs, t.applyAll ms = (.ok rs, (t.applyEach ms).2) ∧ (t.applyEach ms).1 = rs.map .ok
  /-- The listing has every key that was ever accepted. -/
  keys : ∀ k, k ∈ t.entries.map Metric.key ↔ k ∈ past.map Metric.key
  /-- It has the metric that is stored under each key. -/
  listed : ∀ m, m ∈ t.entries ↔ t.get? m.key = some m
  /-- It is in strictly ascending order. -/
  ascending : (t.entries.map Metric.key).Pairwise Key.Before

theorem Holds.reflects (h : t.Holds past) : t.Reflects past where
  missing := h.none_iff
  sum id m hm := h.sum hm
  last := h.last
  accepted m hm := by
    obtain ⟨r, happly, hkey, -⟩ := h.apply_of_fits hm
    exact ⟨r, by rw [happly], by rw [happly, get?_put, if_pos hkey]⟩
  refused m hm := h.apply_of_not_fits hm
  apart m k hk := by
    cases hm : fits past m with
    | false => rw [h.apply_of_not_fits hm]
    | true =>
      obtain ⟨r, happly, hkey, -⟩ := h.apply_of_fits hm
      rw [happly, get?_put, if_neg (by rw [hkey]; exact hk.symm)]
  batch ms := (h.applyAll ms).2.1.symm
  batchRefused ms m hm := by
    have hresult := (h.applyAll ms).2.2
    rw [hm] at hresult
    exact ⟨hresult, eq_fitting_append hm⟩
  batchAccepted ms hms := by
    obtain ⟨-, hstate, hresult⟩ := h.applyAll ms
    rw [hms] at hresult
    obtain ⟨rs, hrs, hones⟩ := hresult
    rw [fitting_eq_self hms] at hstate
    exact ⟨rs, Prod.ext hrs hstate.symm, hones⟩
  keys := h.mem_keys_iff
  listed _ := mem_entries_iff
  ascending := List.pairwise_map.mpr (t.sorted.imp Key.compare_eq_lt_iff.mp)

/-- **A table after any calls is what its past says**: counters are exact sums, gauges are the last
levels, a metric is refused exactly if its sum would not fit, and the listing is in order. -/
theorem reflects_history (calls : List Saving) :
    (empty.performAll calls).Reflects (history calls) :=
  (holds_empty.performAll calls).reflects

/-- The sum in the middle would leave the range, although the sum of all three would not. -/
example : history [.one ⟨"polls", .counter 9223372036854775807⟩,
      .batch [⟨"polls", .gauge ⟨0⟩⟩, ⟨"polls", .counter 1⟩, ⟨"polls", .counter (-1)⟩]]
    = [⟨"polls", .counter 9223372036854775807⟩, ⟨"polls", .gauge ⟨0⟩⟩] := by
  decide

end Table
end Telemetry
