import Telemetry.Store
import Telemetry.Proofs.Json.Scaling
import Telemetry.Proofs.Metric.Decoding
import Telemetry.Proofs.Store.Merging
import Telemetry.Proofs.Store.Snapshot

/-!
# Stores of sound metrics

A metric without a name, or one that is no finite number, would make a whole snapshot unreadable.
None gets into a table: what is merged from sound metrics is sound, and what is read from a
document or from a row has passed the checks. The other way round, whatever is sound can be
written and read again, for its text is read as a metric with the same key.

## Main definitions

* `Telemetry.Table.All` — all entries of a table have a property
* `Telemetry.Table.Sound`, `Telemetry.Store.Sound` — all metrics of a store are sound

## Main results

* `Telemetry.Snapshot.isSound_of_parse` — a snapshot that can be read holds sound metrics
* `Telemetry.Metric.exists_readsAs` — what is sound can be read from its text
* `Telemetry.Store.sound_of_openWith`, `Telemetry.Store.Sound.isSound_of_getAll` — a store that is
  opened, and what any store lists
-/

namespace Telemetry

/-! ### What is read is sound -/

/-- **A snapshot that can be read holds sound metrics.** -/
theorem Snapshot.isSound_of_parse {b : Bytes} {ms : List Metric} (h : parse b = .ok ms) :
    ∀ m ∈ ms, m.isSound := by
  rw [parse] at h
  split_ifs at h
  · cases h
    simp
  · split at h
    · rename_i ms' hdecode
      cases h
      obtain ⟨ds, -, hmetrics⟩ := Wire.decodeAll_eq_ok_iff.mp hdecode
      exact forall_of_mapM (fun _ _ => Draft.isSound_of_metric?) hmetrics
    · cases h

theorem Snapshot.isSound_of_load {d : Disk} {p : Path} {ms : List Metric}
    (h : (load d p).1 = .ok ms) : ∀ m ∈ ms, m.isSound := by
  rw [load] at h
  split at h
  · exact isSound_of_parse h
  · cases h
    simp
  · cases h

theorem Row.isSound_of_metric {row : Row} {m : Metric} (h : row.metric = .ok m) : m.isSound := by
  rw [metric] at h
  split at h
  · rename_i hmetric
    cases h
    exact Draft.isSound_of_metric? hmetric
  · cases h

/-! ### What is sound is read -/

namespace Metric

/-- **What is sound can be read from its text.** -/
theorem exists_readsAs {m : Metric} (h : m.isSound) : ∃ m', m.ReadsAs m' := by
  obtain ⟨hid, hfinite⟩ := isSound_iff.mp h
  obtain ⟨id, x | n⟩ := m
  · obtain ⟨y, hread, hy, -⟩ := Json.binary64_number (ε := Refusal) (x := x) hfinite
    exact ⟨⟨id, .gauge y⟩, hid, rfl, y, hread, hy, rfl⟩
  · exact ⟨⟨id, .counter n⟩, hid, rfl, rfl⟩

theorem exists_forall₂_readsAs {ms : List Metric} (h : ∀ m ∈ ms, m.isSound) :
    ∃ ms', List.Forall₂ ReadsAs ms ms' := by
  induction ms with
  | nil => exact ⟨[], .nil⟩
  | cons m ms ih =>
    obtain ⟨hm, hms⟩ := List.forall_mem_cons.mp h
    obtain ⟨m', hm'⟩ := exists_readsAs hm
    obtain ⟨ms', hms'⟩ := ih hms
    exact ⟨m' :: ms', .cons hm' hms'⟩

theorem ReadsAs.key_eq {m m' : Metric} (h : m.ReadsAs m') : m'.key = m.key := by
  obtain ⟨-, hid, hvalue⟩ := h
  obtain ⟨id, x | n⟩ := m
  · obtain ⟨y, -, -, hy⟩ := hvalue
    simp only [key, kind, hid, hy, Value.kind]
  · have hn : m'.value = .counter n := hvalue
    simp only [key, kind, hid, hn, Value.kind]

/-- A counter is read as itself. -/
theorem ReadsAs.eq_of_counter {id : String} {n : Int64} {m' : Metric}
    (h : (⟨id, .counter n⟩ : Metric).ReadsAs m') : m' = ⟨id, .counter n⟩ := by
  obtain ⟨id', v⟩ := m'
  obtain ⟨-, rfl, hvalue⟩ := h
  cases hvalue
  rfl

theorem map_key_of_forall₂ {ms ms' : List Metric} (h : List.Forall₂ ReadsAs ms ms') :
    ms'.map key = ms.map key := by
  induction h with
  | nil => rfl
  | cons hm _ ih => rw [List.map_cons, List.map_cons, hm.key_eq, ih]

end Metric

/-! ### Tables -/

namespace Table

/-- All entries of the table have the property. -/
def All (p : Metric → Prop) (t : Table) : Prop := ∀ m ∈ t.entries, p m

/-- Metrics are only ever merged to metrics that have the property if they have it themselves. -/
def MergeKeeps (p : Metric → Prop) : Prop :=
  ∀ current m r, merge current m = .ok r → p m → p r

variable {t : Table} {p : Metric → Prop}

theorem all_empty : All p empty := by
  intro m hm
  cases hm

theorem All.put (h : t.All p) {m : Metric} (hm : p m) : (t.put m).All p := by
  intro x hx
  rcases mem_insertEntry hx with rfl | hx
  · exact hm
  · exact h x hx

theorem All.putAll (h : t.All p) {ms : List Metric} (hms : ∀ m ∈ ms, p m) :
    (t.putAll ms).All p := by
  induction ms generalizing t with
  | nil => exact h
  | cons m ms ih =>
    obtain ⟨hm, hms⟩ := List.forall_mem_cons.mp hms
    exact ih (h.put hm) hms

/-- Merging a metric keeps the property, whether it is refused or not. -/
theorem All.apply (hp : MergeKeeps p) (h : t.All p) {m : Metric} (hm : p m) :
    (t.apply m).2.All p := by
  rw [Table.apply]
  split
  · exact h
  · rename_i hmerge
    exact h.put (hp _ _ _ hmerge hm)

/-- Merging metrics keeps the property, wherever it breaks off. -/
theorem All.applyAll (hp : MergeKeeps p) (h : t.All p) {ms : List Metric}
    (hms : ∀ m ∈ ms, p m) : (t.applyAll ms).2.All p := by
  induction ms generalizing t with
  | nil => exact h
  | cons m ms ih =>
    obtain ⟨hm, hms⟩ := List.forall_mem_cons.mp hms
    have hfirst := h.apply hp hm
    rw [Table.applyAll]
    rcases happly : t.apply m with ⟨_ | r, u⟩
    · rw [happly] at hfirst
      exact hfirst
    · rw [happly] at hfirst
      have hrest := ih hfirst hms
      dsimp only
      rcases hall : u.applyAll ms with ⟨_ | rs, v⟩ <;> rwa [hall] at hrest

/-- All entries of the table are sound. -/
def Sound (t : Table) : Prop := t.All fun m => m.isSound

theorem mergeKeeps_isSound : MergeKeeps fun m => m.isSound := fun _ _ _ => isSound_of_merge

theorem Sound.apply (h : t.Sound) {m : Metric} (hm : m.isSound) : (t.apply m).2.Sound :=
  All.apply mergeKeeps_isSound h hm

theorem Sound.applyAll (h : t.Sound) {ms : List Metric} (hms : ∀ m ∈ ms, m.isSound) :
    (t.applyAll ms).2.Sound :=
  All.applyAll mergeKeeps_isSound h hms

/-! ### Metrics in order -/

/-- A metric that comes behind all others in the order is placed behind them. -/
theorem insertEntry_last {m : Metric} {es : List Metric} (h : ∀ e ∈ es, Precedes e m) :
    insertEntry m es = es ++ [m] := by
  induction es with
  | nil => rfl
  | cons e es ih =>
    obtain ⟨he, hes⟩ := List.forall_mem_cons.mp h
    have hgt : compare m.key e.key = .gt := Std.OrientedCmp.gt_of_lt he
    simp only [insertEntry, hgt, ih hes, List.cons_append]

/-- Metrics in the order of their keys are stored one behind the other. -/
theorem entries_putAll {ms : List Metric} (h : (t.entries ++ ms).Pairwise Precedes) :
    (t.putAll ms).entries = t.entries ++ ms := by
  induction ms generalizing t with
  | nil => exact (List.append_nil _).symm
  | cons m ms ih =>
    have hput : (t.put m).entries = t.entries ++ [m] :=
      insertEntry_last fun e he => (List.pairwise_append.mp h).2.2 e he m List.mem_cons_self
    have hassoc : (t.put m).entries ++ ms = t.entries ++ m :: ms := by
      rw [hput, List.append_assoc, List.singleton_append]
    exact (ih (hassoc ▸ h)).trans hassoc

/-- Metrics in the order of their keys are the entries of the table they make. -/
theorem entries_ofList {ms : List Metric} (h : ms.Pairwise Precedes) : (ofList ms).entries = ms :=
  entries_putAll (t := .empty) h

/-- What the texts of the entries of a table are read as is in order as well. -/
theorem precedes_of_forall₂ {ms : List Metric}
    (h : List.Forall₂ Metric.ReadsAs t.entries ms) : ms.Pairwise Precedes := by
  have hkeys : (t.entries.map Metric.key).Pairwise fun a b => compare a b = .lt :=
    List.pairwise_map.mpr t.sorted
  rwa [← Metric.map_key_of_forall₂ h, List.pairwise_map] at hkeys

end Table

/-! ### Stores -/

namespace Store

/-- The metrics that a store keeps itself are sound. -/
def Sound : Store → Prop
  | .memory t => t.Sound
  | .persistent m => m.table.Sound
  | .database _ => True

/-- A table that takes the metrics of a file stays sound. -/
theorem sound_of_restore {m n : PersistentTable} {count : ℕ} (hm : m.table.Sound)
    (h : m.restore = (.ok count, n)) : n.table.Sound := by
  rw [PersistentTable.restore] at h
  split at h
  · cases h
  · rename_i ms file hload
    cases h
    exact Table.All.putAll hm (Snapshot.isSound_of_load (congrArg Prod.fst hload))

/-- **A store that is opened is sound**, whatever there is on the disk. -/
theorem sound_of_openWith {settings : StoreSettings} {disk : Disk}
    {connect : String → Except DbFailure Session} {b : Store}
    (h : openWith settings disk connect = .ok b) : b.Sound := by
  have hempty : Table.empty.Sound := Table.all_empty
  rw [openWith] at h
  split at h
  · split at h <;> cases h
    trivial
  · split at h
    · cases h
      exact hempty
    · split at h
      · cases h
      · dsimp only at h
        split_ifs at h
        · split at h
          · cases h
          · rename_i hrestore
            cases h
            exact sound_of_restore hempty hrestore
        · cases h
          exact hempty

/-- **What a store lists is sound**, for a database whatever its rows are. -/
theorem Sound.isSound_of_getAll {b : Store} (h : b.Sound) {deadline : Option Deadline}
    {ms : List Metric} (hms : (b.getAll deadline).1 = .returned (.ok ms)) :
    ∀ m ∈ ms, m.isSound := by
  cases b with
  | memory t =>
    cases hms
    exact h
  | persistent m =>
    cases hms
    exact h
  | database d =>
    simp only [getAll, Database.getAll, Database.Finished.bind] at hms
    split at hms
    · cases hms
    · cases hms
    · rename_i rows _
      cases hrows : rows.mapM Row.metric with
      | error e =>
        rw [hrows] at hms
        cases hms
      | ok xs =>
        rw [hrows] at hms
        cases hms
        intro m hm
        exact forall_of_mapM (fun _ _ => Row.isSound_of_metric) hrows m (List.mem_mergeSort.mp hm)

end Store
end Telemetry
