import Telemetry.Store.Failure
/-!
# The table of metrics

The current value of every metric, at most one for each key, in the order of the keys. A metric
that comes in replaces a gauge and is added to a counter; a sum that leaves the range of 64-bit
integers is refused and changes nothing.

## Main definitions

* `Telemetry.Table`: the table. It is determined by its entries.
* `Telemetry.merge`: what becomes of a metric that comes in.
* `Telemetry.Table.get?`, `Telemetry.Table.put`
* `Telemetry.Table.apply`, `Telemetry.Table.applyAll`: merging one metric, or one after the other.
-/

namespace Telemetry

/-- Metrics in strictly ascending order of their keys. -/
@[ext] structure Table where
  entries : List Metric
  sorted : entries.Pairwise fun a b => compare a.key b.key = .lt

namespace Table

instance : DecidableEq Table := fun s t =>
  if h : s.entries = t.entries then isTrue (Table.ext h)
  else isFalse fun e => h (congrArg Table.entries e)

/-- The table without entries. -/
def empty : Table := ⟨[], .nil⟩

instance : Inhabited Table := ⟨empty⟩

/-- The metric stored under a key. -/
def get? (t : Table) (k : Key) : Option Metric := t.entries.find? fun m => m.key = k

/-- Places a metric among metrics in ascending order, in the place of one with its key. -/
def insertEntry (m : Metric) : List Metric → List Metric
  | [] => [m]
  | e :: es =>
    match compare m.key e.key with
    | .lt => m :: e :: es
    | .eq => m :: es
    | .gt => e :: insertEntry m es

theorem mem_insertEntry {m x : Metric} {es : List Metric} (h : x ∈ insertEntry m es) :
    x = m ∨ x ∈ es := by
  induction es with
  | nil => simpa [insertEntry] using h
  | cons e es ih =>
    simp only [insertEntry] at h
    split at h
    · simpa using h
    · simp only [List.mem_cons] at h ⊢
      exact h.imp_right .inr
    · simp only [List.mem_cons] at h ⊢
      rcases h with h | h
      · exact .inr (.inl h)
      · exact (ih h).imp_right .inr

theorem insertEntry_sorted {m : Metric} {es : List Metric}
    (h : es.Pairwise fun a b => compare a.key b.key = .lt) :
    (insertEntry m es).Pairwise fun a b => compare a.key b.key = .lt := by
  induction es with
  | nil => simp [insertEntry]
  | cons e es ih =>
    rw [List.pairwise_cons] at h
    simp only [insertEntry]
    split
    · rename_i hlt
      refine List.pairwise_cons.2 ⟨fun x hx => ?_, List.pairwise_cons.2 h⟩
      rcases List.mem_cons.1 hx with rfl | hx
      · exact hlt
      · exact Std.TransCmp.lt_trans hlt (h.1 x hx)
    · rename_i heq
      have hk : m.key = e.key := Std.LawfulEqOrd.eq_of_compare heq
      exact List.pairwise_cons.2 ⟨fun x hx => hk ▸ h.1 x hx, h.2⟩
    · rename_i hgt
      refine List.pairwise_cons.2 ⟨fun x hx => ?_, ih h.2⟩
      rcases mem_insertEntry hx with rfl | hx
      · exact Std.OrientedCmp.lt_of_gt hgt
      · exact h.1 x hx

/-- Stores a metric under its key. -/
def put (t : Table) (m : Metric) : Table := ⟨insertEntry m t.entries, insertEntry_sorted t.sorted⟩

/-- Stores metrics one after the other, as they are. -/
def putAll (t : Table) (ms : List Metric) : Table := ms.foldl put t

/-- The table of the last metric for each key of a list. -/
def ofList (ms : List Metric) : Table := empty.putAll ms

end Table

/-- What becomes of a metric that comes in where another may be stored: counters add up, and
anything else is replaced. -/
def merge (current : Option Metric) (incoming : Metric) : Except StoreError Metric :=
  match current.map Metric.value, incoming.value with
  | some (.counter stored), .counter delta =>
    match Integer.int64? (stored.toInt + delta.toInt) with
    | some sum => .ok { incoming with value := .counter sum }
    | none => .error (.overflow incoming.id)
  | _, _ => .ok incoming

namespace Table

/-- Merges a metric; a refused one changes nothing. -/
def apply (t : Table) (m : Metric) : Except StoreError Metric × Table :=
  match merge (t.get? m.key) m with
  | .error e => (.error e, t)
  | .ok merged => (.ok merged, t.put merged)

/-- Merges metrics one after the other up to the first refused one; those before it stay. -/
def applyAll (t : Table) : List Metric → Except StoreError (List Metric) × Table
  | [] => (.ok [], t)
  | m :: ms =>
    match t.apply m with
    | (.error e, t) => (.error e, t)
    | (.ok merged, t) =>
      match t.applyAll ms with
      | (.error e, t) => (.error e, t)
      | (.ok saved, t) => (.ok (merged :: saved), t)

end Table
end Telemetry
