import Telemetry.Proofs.Store.Contents

/-!
# Where a counter stands

Of every store one can say where a counter stands: where it stands in the table that the store
shows. Metrics that are merged add their deltas to it.

## Main definitions

* `Telemetry.Table.count`, `Telemetry.Store.count` — where a counter stands

## Main results

* `Telemetry.Table.Merges.count` — what metrics that are merged do to all counters
* `Telemetry.Store.Shows.count` — the counters of a store are those of a table
-/

namespace Telemetry

/-! ### Tables -/

namespace Table

/-- Where a counter stands; if there is none, at zero. -/
def count (t : Table) (id : String) : ℤ :=
  match (t.get? ⟨id, .counter⟩).map Metric.value with
  | some (.counter n) => n.toInt
  | _ => 0

theorem Holds.count {t : Table} {past : List Metric} (h : t.Holds past) (id : String) :
    t.count id = (deltas id past).sum := by
  rw [Table.count]
  cases hget : t.get? ⟨id, .counter⟩ with
  | none =>
    rw [(h.none_iff id).mp hget]
    rfl
  | some m =>
    obtain ⟨n, rfl, hsum⟩ := h.sum hget
    exact hsum

variable {t u : Table} {ms : List Metric}

/-- **Metrics that are merged** add their deltas to every counter. -/
theorem Merges.count {rs : List Metric} (h : t.Merges ms rs u) (id : String) :
    u.count id = t.count id + (deltas id ms).sum := by
  rw [(t.holds_entries.merges h).count, t.holds_entries.count, deltas_append, List.sum_append]

end Table

/-! ### Stores -/

namespace Store

/-- Where a counter stands; if there is none, at zero. -/
def count (b : Store) (id : String) : ℤ :=
  match b with
  | .memory t => t.count id
  | .persistent m => m.table.count id
  | .database d =>
    ((d.session.table.select? id Kind.counter.word).bind Row.delta).elim 0 Int64.toInt

/-- The counters of a store are those of the table that it shows. -/
theorem Shows.count {b : Store} {t : Table} (h : b.Shows t) (id : String) :
    b.count id = t.count id := by
  cases b with
  | memory u => rw [Store.count, show u = t from h]
  | persistent m => rw [Store.count, show m.table = t from h]
  | database d =>
    rw [Store.count, Table.count, h.2.select? ⟨id, .counter⟩]
    cases hget : t.get? ⟨id, .counter⟩ with
    | none => rfl
    | some m =>
      obtain ⟨-, hkey⟩ := Table.get?_eq_some_iff.mp hget
      obtain ⟨name, x | n⟩ := m
      · cases hkey
      · rfl

end Store
end Telemetry
