import Telemetry.Proofs.Store.Accumulation

/-!
# Metrics that are merged in another order

The order of metrics decides which of them are refused: a sum in the middle may leave the range of
64-bit integers although the sum of all does not. It does not decide what the table holds once they
are all accepted, as long as the gauges of each name keep their order. A counter then stands at a
sum of integers and a gauge at the last of the same levels.

## Main definitions

* `Telemetry.Rearranges` — metrics in another order that keeps the order of each gauge

## Main results

* `Telemetry.Table.eq_of_holds` — tables whose pasts come to the same are the same
* `Telemetry.Table.applyAll_of_rearranges` — the order makes no difference to the table
-/

namespace Telemetry

/-- The second list has the metrics of the first in any order in which the gauges of each name
follow one another as they did. -/
structure Rearranges (ms ns : List Metric) : Prop where
  perm : ms.Perm ns
  gauges : ∀ id, ms.filter (fun m => m.key = ⟨id, .gauge⟩)
    = ns.filter (fun m => m.key = ⟨id, .gauge⟩)

/-! ### What the past says about a name -/

/-- The levels for a name are those of the gauges of that name. -/
theorem levels_filter (id : String) (past : List Metric) :
    levels id (past.filter fun m => m.key = ⟨id, .gauge⟩) = levels id past := by
  rw [levels, List.filterMap_filter]
  refine List.filterMap_congr fun m _ => ?_
  obtain ⟨name, x | d⟩ := m
  · by_cases hname : name = id <;> simp [Metric.key, Metric.kind, Value.kind, hname]
  · simp

theorem Rearranges.levels_eq {ms ns : List Metric} (h : Rearranges ms ns) (id : String) :
    levels id ms = levels id ns := by
  rw [← levels_filter, h.gauges, levels_filter]

theorem Rearranges.deltas_perm {ms ns : List Metric} (h : Rearranges ms ns) (id : String) :
    (deltas id ms).Perm (deltas id ns) :=
  h.perm.filterMap _

/-- What comes first keeps its place. -/
theorem Rearranges.append_left {ms ns : List Metric} (h : Rearranges ms ns) (past : List Metric) :
    Rearranges (past ++ ms) (past ++ ns) where
  perm := h.perm.append_left past
  gauges id := by rw [List.filter_append, List.filter_append, h.gauges]

namespace Table

variable {t u v : Table}

/-- Tables are the same if their pasts have the same deltas, in whatever order, and the same
levels. -/
theorem eq_of_holds {past past' : List Metric} (hu : u.Holds past) (hv : v.Holds past')
    (hdeltas : ∀ id, (deltas id past).Perm (deltas id past'))
    (hlevels : ∀ id, levels id past = levels id past') : u = v := by
  refine eq_of_get?_eq fun k => ?_
  obtain ⟨id, _ | _⟩ := k
  · rw [hu.last, hv.last, hlevels]
  · have hnone : u.get? ⟨id, .counter⟩ = none ↔ v.get? ⟨id, .counter⟩ = none := by
      rw [hu.none_iff, hv.none_iff, ← List.length_eq_zero_iff, (hdeltas id).length_eq,
        List.length_eq_zero_iff]
    cases hleft : u.get? ⟨id, .counter⟩ with
    | none => exact (hnone.mp hleft).symm
    | some m =>
      cases hright : v.get? ⟨id, .counter⟩ with
      | none =>
        rw [hnone.mpr hright] at hleft
        cases hleft
      | some n =>
        obtain ⟨d, rfl, hd⟩ := hu.sum hleft
        obtain ⟨e, rfl, he⟩ := hv.sum hright
        have hsum : d.toInt = e.toInt := by rw [hd, he, (hdeltas id).sum_eq]
        rw [Int64.toInt_inj.mp hsum]

/-- **Metrics that are all accepted leave the same table in any order** in which the gauges of
each name follow one another as they did. -/
theorem applyAll_of_rearranges (t : Table) {ms ns rs ss : List Metric} (h : Rearranges ms ns)
    (hms : (t.applyAll ms).1 = .ok rs) (hns : (t.applyAll ns).1 = .ok ss) :
    (t.applyAll ms).2 = (t.applyAll ns).2 := by
  -- what the table holds already joins the past as well
  have hleft : (t.applyAll ms).2.Holds (t.entries ++ ms) :=
    t.holds_entries.merges (applyAll_eq_ok_iff.mp (Prod.ext hms rfl))
  have hright : (t.applyAll ns).2.Holds (t.entries ++ ns) :=
    t.holds_entries.merges (applyAll_eq_ok_iff.mp (Prod.ext hns rfl))
  have hpast : Rearranges (t.entries ++ ms) (t.entries ++ ns) := h.append_left t.entries
  exact eq_of_holds hleft hright hpast.deltas_perm hpast.levels_eq

/-- Deltas and levels of one name pass each other, up to the largest integer and back. -/
theorem applyAll_of_rearranges_polls :
    let t : Table := ofList [⟨"polls", .counter 9223372036854775806⟩]
    let ms : List Metric := [⟨"polls", .counter 1⟩, ⟨"polls", .gauge ⟨0⟩⟩, ⟨"polls", .gauge ⟨1⟩⟩,
      ⟨"polls", .counter (-1)⟩]
    let ns : List Metric := [⟨"polls", .gauge ⟨0⟩⟩, ⟨"polls", .counter (-1)⟩,
      ⟨"polls", .counter 1⟩, ⟨"polls", .gauge ⟨1⟩⟩]
    Rearranges ms ns ∧ (∃ rs, (t.applyAll ms).1 = .ok rs) ∧ (∃ ss, (t.applyAll ns).1 = .ok ss) ∧
      (t.applyAll ms).2 = (t.applyAll ns).2 := by
  intro t ms ns
  have hrearranges : Rearranges ms ns := by
    refine ⟨by decide, fun id => ?_⟩
    by_cases hname : "polls" = id <;> simp [ms, ns, Metric.key, Metric.kind, Value.kind, hname]
  have hms : (t.applyAll ms).1 = .ok [⟨"polls", .counter 9223372036854775807⟩,
      ⟨"polls", .gauge ⟨0⟩⟩, ⟨"polls", .gauge ⟨1⟩⟩, ⟨"polls", .counter 9223372036854775806⟩] := rfl
  have hns : (t.applyAll ns).1 = .ok [⟨"polls", .gauge ⟨0⟩⟩,
      ⟨"polls", .counter 9223372036854775805⟩, ⟨"polls", .counter 9223372036854775806⟩,
      ⟨"polls", .gauge ⟨1⟩⟩] := rfl
  exact ⟨hrearranges, ⟨_, hms⟩, ⟨_, hns⟩, applyAll_of_rearranges t hrearranges hms hns⟩

/-- The order does decide whether they are accepted. -/
example :
    let t : Table := ofList [⟨"polls", .counter 9223372036854775807⟩]
    (t.applyAll [⟨"polls", .counter 1⟩, ⟨"polls", .counter (-1)⟩]).1
        = .error (.overflow "polls") ∧
      (t.applyAll [⟨"polls", .counter (-1)⟩, ⟨"polls", .counter 1⟩]).2 = t := by
  decide

end Table
end Telemetry
