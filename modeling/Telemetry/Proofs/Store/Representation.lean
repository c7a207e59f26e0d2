import Telemetry.Store.Relation
import Telemetry.Proofs.Metric.Draft
import Telemetry.Proofs.Store.Merging
import Mathlib.Data.List.Perm.Basic

/-!
# Relations that represent tables

The rows of a relation, in whatever order, are those of the sound metrics of a table: a delta and
no value for a counter, a value and no delta for a gauge. An upsert then does to the relation what
merging does to the table, null arithmetic and overflow included, and the rows that are read back
describe the metrics of the table.

## Main definitions

* `Telemetry.Relation.Represents` — the relation holds the rows of a table

## Main results

* `Telemetry.Relation.Represents.upsert` — an upsert is a merge
* `Telemetry.Relation.Represents.select?`, `Telemetry.Relation.Represents.selectAll` — what is
  read back
-/

namespace Telemetry

/-! ### Rows of metrics -/

namespace Row

@[simp] theorem id_ofMetric (m : Metric) : (ofMetric m).id = m.id := by
  obtain ⟨id, level | delta⟩ := m <;> rfl

@[simp] theorem type_ofMetric (m : Metric) : (ofMetric m).type = m.kind.word := by
  obtain ⟨id, level | delta⟩ := m <;> rfl

/-- The row of a sound metric describes it. -/
theorem metric_ofMetric {m : Metric} (h : m.isSound) : (ofMetric m).metric = .ok m := by
  have hdraft : (ofMetric m).draft = m.draft := by obtain ⟨id, level | delta⟩ := m <;> rfl
  rw [metric, hdraft, Metric.metric?_draft h]

/-- Rows of metrics have the same name and type if the metrics have the same key. -/
theorem sameKey_ofMetric (m n : Metric) :
    (ofMetric m).sameKey (ofMetric n) = decide (m.key = n.key) := by
  rw [Bool.eq_iff_iff, decide_eq_true_iff]
  constructor
  · intro h
    obtain ⟨hid, htype⟩ : m.id = n.id ∧ m.kind.word = n.kind.word := by simpa [sameKey] using h
    rw [Metric.key, Metric.key, hid, Kind.word_injective htype]
  · intro h
    obtain ⟨hid, hkind⟩ : m.id = n.id ∧ m.kind = n.kind := by simpa [Metric.key] using h
    simp [sameKey, hid, hkind]

end Row

namespace Relation

/-- A relation represents a table of sound metrics by their rows, in any order. -/
structure Represents (r : Relation) (t : Table) : Prop where
  sound : ∀ m ∈ t.entries, m.isSound
  rows : ∃ ms : List Metric, ms.Perm t.entries ∧ r.rows = ms.map Row.ofMetric

theorem represents_empty : Represents {} .empty :=
  ⟨fun m hm => by simp [Table.empty] at hm, ⟨[], List.Perm.refl _, rfl⟩⟩

/-! ### Reading rows -/

/-- In any order, at most one metric has a key. -/
theorem find?_eq_get? {ms : List Metric} {t : Table} (h : ms.Perm t.entries) (k : Key) :
    ms.find? (fun m => m.key = k) = t.get? k := by
  refine Option.ext fun m => ?_
  rw [(t.unambiguous_entries.of_perm h).find?_eq_some_iff, Table.get?_eq_some_iff, h.mem_iff]

/-- **The row that is found** under a name and a type is that of the metric under the key. -/
theorem Represents.select? {r : Relation} {t : Table} (h : r.Represents t) (k : Key) :
    r.select? k.id k.kind.word = (t.get? k).map Row.ofMetric := by
  obtain ⟨ms, hms, hrows⟩ := h.rows
  have hkey : ∀ m : Metric, ((Row.ofMetric m).id == k.id && (Row.ofMetric m).type == k.kind.word)
      = decide (m.key = k) := by
    intro m
    rw [Bool.eq_iff_iff, decide_eq_true_iff, Row.id_ofMetric, Row.type_ofMetric,
      Bool.and_eq_true, beq_iff_eq, beq_iff_eq]
    constructor
    · rintro ⟨hid, htype⟩
      rw [Metric.key, hid, Kind.word_injective htype]
    · rintro rfl
      exact ⟨rfl, rfl⟩
  rw [Relation.select?, hrows, List.find?_map, ← find?_eq_get? hms]
  congr 2
  funext m
  exact hkey m

theorem Represents.isSound_of_get? {r : Relation} {t : Table} (h : r.Represents t) {k : Key}
    {m : Metric} (hm : t.get? k = some m) : m.isSound ∧ m.key = k := by
  refine ⟨h.sound m (List.mem_of_find?_eq_some hm), ?_⟩
  simpa using List.find?_some hm

/-- Rows of sound metrics describe them. -/
theorem mapM_metric {ms : List Metric} (h : ∀ m ∈ ms, m.isSound) :
    (ms.map Row.ofMetric).mapM Row.metric = .ok ms := by
  induction ms with
  | nil => rfl
  | cons m ms ih =>
    rw [List.map_cons, List.mapM_cons, Row.metric_ofMetric (h m List.mem_cons_self),
      ih fun x hx => h x (List.mem_cons_of_mem _ hx)]
    rfl

/-- Sorting metrics by their keys gives the table, whatever their order was. -/
theorem mergeSort_eq_entries {ms : List Metric} {t : Table} (h : ms.Perm t.entries) :
    ms.mergeSort (fun a b => (compare a.key b.key).isLE) = t.entries := by
  refine List.Perm.eq_of_pairwise ?_ (pairwise_mergeSort_key ms) ?_
    ((List.mergeSort_perm ms _).trans h)
  · intro a b ha hb hab hba
    have hkey : a.key = b.key :=
      Std.LawfulEqOrd.eq_of_compare (Std.OrientedCmp.isLE_antisymm hab hba)
    have hmem : a ∈ t.entries := h.mem_iff.mp ((List.mergeSort_perm ms _).mem_iff.mp ha)
    exact t.unambiguous_entries a hmem b hb hkey
  · exact t.sorted.imp fun h => by rw [h]; rfl

/-- **All rows, read and sorted, are the metrics of the table** in their order. -/
theorem Represents.selectAll {r : Relation} {t : Table} (h : r.Represents t) :
    ∃ ms, r.selectAll.mapM Row.metric = .ok ms ∧
      ms.mergeSort (fun a b => (compare a.key b.key).isLE) = t.entries := by
  obtain ⟨ms, hms, hrows⟩ := h.rows
  -- the rows are sorted by name alone, which is an order of the metrics as good as any
  let byName : List Metric := ms.mergeSort fun a b => (compare a.id b.id).isLE
  have hperm : byName.Perm t.entries := (List.mergeSort_perm ms _).trans hms
  have hselect : r.selectAll = byName.map Row.ofMetric := by
    rw [Relation.selectAll, hrows]
    refine (List.map_mergeSort fun a _ b _ => ?_).symm
    rw [Row.id_ofMetric, Row.id_ofMetric]
  refine ⟨byName, ?_, mergeSort_eq_entries hperm⟩
  rw [hselect]
  exact mapM_metric fun m hm => h.sound m (hperm.mem_iff.mp hm)

/-! ### Upserts -/

/-- The rows with other names and types stay, and the row joins them. -/
theorem replace_map (m : Metric) {ms : List Metric}
    (hms : ms.Pairwise fun a b => a.key ≠ b.key) :
    ∃ ns : List Metric, replace (.ofMetric m) (ms.map Row.ofMetric) = ns.map Row.ofMetric ∧
      ns.Perm (m :: ms.filter fun x => x.key ≠ m.key) := by
  induction ms with
  | nil => exact ⟨[m], rfl, .refl _⟩
  | cons x ms ih =>
    obtain ⟨hhead, htail⟩ := List.pairwise_cons.mp hms
    simp only [List.map_cons, replace, Row.sameKey_ofMetric, decide_eq_true_eq]
    by_cases hx : m.key = x.key
    · have hall : ∀ y ∈ ms, decide (y.key ≠ m.key) = true := by
        intro y hy
        rw [decide_eq_true_iff, hx]
        exact (hhead y hy).symm
      rw [if_pos hx, List.filter_cons_of_neg (by simp [hx]), List.filter_eq_self.mpr hall]
      exact ⟨m :: ms, rfl, .refl _⟩
    · obtain ⟨ns, hns, hperm⟩ := ih htail
      rw [if_neg hx, List.filter_cons_of_pos (by simpa using Ne.symm hx), hns]
      exact ⟨x :: ns, rfl, (hperm.cons x).trans (.swap _ _ _)⟩

/-- A row in the place of the one with its name and type is a metric in the place of the one with
its key. -/
theorem Represents.replace {r : Relation} {t : Table} (h : r.Represents t) {m : Metric}
    (hm : m.isSound) : Represents ⟨replace (.ofMetric m) r.rows⟩ (t.put m) := by
  obtain ⟨ms, hms, hrows⟩ := h.rows
  have hne : ms.Pairwise fun a b => a.key ≠ b.key :=
    (hms.pairwise_iff fun hab => hab.symm).mpr t.keys_ne
  obtain ⟨ns, hns, hperm⟩ := replace_map m hne
  refine ⟨fun x hx => ?_, ns, ?_, ?_⟩
  · rcases Table.mem_insertEntry hx with rfl | hx
    · exact hm
    · exact h.sound x hx
  · exact hperm.trans (((hms.filter _).cons m).trans (Table.insertEntry_perm m t.sorted).symm)
  · rw [hrows, hns]

/-- **An upsert is a merge.** It stores and returns the row of the merged metric, or it reports a
result out of range where the counter would overflow. -/
theorem Represents.upsert {r : Relation} {t : Table} (h : r.Represents t) {m : Metric}
    (hm : m.isSound) :
    (∃ y u, merge (t.get? m.key) m = .ok y ∧ r.upsert (.ofMetric m) = .ok (.ofMetric y, u) ∧
        u.Represents (t.put y)) ∨
      merge (t.get? m.key) m = .error (.overflow m.id) ∧
        r.upsert (.ofMetric m) = .error (.runtime .query (.server (some outOfRange))) := by
  have hselect : r.select? (Row.ofMetric m).id (Row.ofMetric m).type
      = (t.get? m.key).map Row.ofMetric := by
    rw [Row.id_ofMetric, Row.type_ofMetric]
    exact h.select? m.key
  cases hget : t.get? m.key with
  | none =>
    rw [hget] at hselect
    refine .inl ⟨m, _, rfl, ?_, h.replace hm⟩
    rw [Relation.upsert, hselect]
    rfl
  | some old =>
    rw [hget] at hselect
    have hkey : old.key = m.key := (Table.get?_eq_some_iff.mp hget).2
    obtain ⟨id, old⟩ := old
    obtain ⟨name, new⟩ := m
    cases old with
    | gauge before =>
      cases new with
      | gauge level =>
        -- null and null add up to null
        refine .inl ⟨⟨name, .gauge level⟩, _, rfl, ?_, h.replace hm⟩
        rw [Relation.upsert, hselect]
        rfl
      | counter delta => simp [Metric.key, Metric.kind, Value.kind] at hkey
    | counter before =>
      cases new with
      | gauge level => simp [Metric.key, Metric.kind, Value.kind] at hkey
      | counter delta =>
        cases hsum : Integer.int64? (before.toInt + delta.toInt) with
        | none =>
          refine .inr ⟨by simp [merge, hsum], ?_⟩
          rw [Relation.upsert, hselect]
          simp [Row.ofMetric, Row.ofDraft, Metric.draft, sum?, hsum]
        | some sum =>
          have hy : (⟨name, .counter sum⟩ : Metric).isSound := by
            simpa [Metric.isSound, Value.isFinite] using hm
          refine .inl ⟨⟨name, .counter sum⟩, _, by simp [merge, hsum], ?_, h.replace hy⟩
          rw [Relation.upsert, hselect]
          simp [Row.ofMetric, Row.ofDraft, Metric.draft, sum?, hsum, Metric.kind, Value.kind]

end Relation
end Telemetry
