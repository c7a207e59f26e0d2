import Telemetry.Proofs.Json.Faults
import Telemetry.Proofs.Metric.Draft

/-!
# Metrics that are checked as they are read

A metric is read by reading a draft and checking it at once, so among many metrics the first one
that is refused ends the reading. Drafts can also be read to the end of the document and checked
afterwards. It comes to the same: what an item is read as does not depend on the items before it,
so a check behind each item is a check behind the last one.

## Main definitions

* `Telemetry.Json.Checks` — a reader that is another one with a check behind it

## Main results

* `Telemetry.Json.Checks.readArray` — checking the items is checking the array
* `Telemetry.Wire.decode_eq_ok_iff`, `Telemetry.Wire.decodeAll_eq_ok_iff` — checking while reading
  is checking afterwards
-/

namespace Telemetry

namespace Json

variable {ε α β : Type}

/-! ### The items of an array, one at a time -/

/-- Items that were read already stand before the others. -/
theorem items_acc (r : Reader ε α) (n : ℕ) (first : Bool) (acc : List α) (s : Bytes) :
    items r n first acc s = (items r n first [] s).map fun x => (acc.reverse ++ x.1, x.2) := by
  induction n generalizing first acc s with
  | zero => rfl
  | succ n ih =>
    simp only [items]
    rcases nextItem (ε := ε) first s with f | ⟨_ | _, u⟩
    · rfl
    · simp [Except.map]
    · dsimp only
      rcases r u with f | ⟨x, v⟩
      · rfl
      · dsimp only
        rw [ih false (x :: acc), ih false [x]]
        cases items r n false [] v <;> simp [Except.map]

theorem items_eq_ok {r : Reader ε α} {n : ℕ} {first : Bool} {s t : Bytes} {xs : List α} :
    items r (n + 1) first [] s = .ok (xs, t) ↔
      nextItem (ε := ε) first s = .ok (false, t) ∧ xs = [] ∨
      ∃ u x v ys, nextItem (ε := ε) first s = .ok (true, u) ∧ r u = .ok (x, v) ∧
        items r n false [] v = .ok (ys, t) ∧ xs = x :: ys := by
  simp only [items]
  rcases nextItem (ε := ε) first s with f | ⟨_ | _, u⟩
  · simp
  · simp [eq_comm, and_comm]
  · dsimp only
    rcases hx : r u with f | ⟨x, v⟩
    · simp [hx]
    · dsimp only
      rw [items_acc r n false [x]]
      rcases hys : items r n false [] v with f | ⟨ys, w⟩
      · simp [Except.map, hx, hys]
      · simp [Except.map, hx, hys, eq_comm, and_comm]

theorem readArray_eq_ok {r : Reader ε α} {fuel : ℕ} {s t : Bytes} {xs : List α} :
    readArray fuel r s = .ok (xs, t) ↔
      ∃ u v, skipSpace s = 91 :: u ∧ items r fuel true [] u = .ok (xs, v) ∧
        endArray (ε := ε) v = .ok t := by
  rw [readArray]
  cases skipSpace s with
  | nil => simp
  | cons b u =>
    by_cases hb : b = 91
    · subst hb
      rcases hitems : items r fuel true [] u with f | ⟨ys, v⟩
      · simp [hitems]
      · cases hend : endArray (ε := ε) v <;> simp [Except.map, hitems, hend]
    · simp [hb]

theorem document_eq_ok_iff {r : ℕ → Reader ε α} {b : Bytes} {x : α} :
    document r b = .ok x ↔
      ∃ t, r (b.length + 1) b = .ok (x, t) ∧ (skipSpace t).isEmpty := by
  rw [document]
  rcases r (b.length + 1) b with f | ⟨y, t⟩
  · simp
  · grind

/-! ### Checks behind a reader -/

/-- Does the second reader read what the first one reads, as far as it passes a check? -/
def Checks (c : α → Except ε β) (r : Reader ε α) (r' : Reader ε β) : Prop :=
  ∀ s y t, r' s = .ok (y, t) ↔ ∃ x, r s = .ok (x, t) ∧ c x = .ok y

namespace Checks

variable {c : α → Except ε β} {r : Reader ε α} {r' : Reader ε β}

theorem items (hr : Checks c r r') (n : ℕ) (first : Bool) :
    Checks (List.mapM c) (items r n first []) (Json.items r' n first []) := by
  induction n generalizing first with
  | zero =>
    intro s ys t
    simp [Json.items]
  | succ n ih =>
    intro s ys t
    constructor
    · intro h
      rcases items_eq_ok.mp h with ⟨hend, rfl⟩ | ⟨u, y, v, ys, hnext, hy, hys, rfl⟩
      · exact ⟨[], items_eq_ok.mpr (.inl ⟨hend, rfl⟩), rfl⟩
      · obtain ⟨x, hx, hc⟩ := (hr u y v).mp hy
        obtain ⟨xs, hxs, hcs⟩ := (ih false v ys t).mp hys
        have hitems := items_eq_ok.mpr (.inr ⟨u, x, v, xs, hnext, hx, hxs, rfl⟩)
        exact ⟨x :: xs, hitems, mapM_cons_eq_ok.mpr ⟨y, ys, hc, hcs, rfl⟩⟩
    · rintro ⟨xs, h, hc⟩
      rcases items_eq_ok.mp h with ⟨hend, rfl⟩ | ⟨u, x, v, xs, hnext, hx, hxs, rfl⟩
      · cases hc
        exact items_eq_ok.mpr (.inl ⟨hend, rfl⟩)
      · obtain ⟨y, ys, hcx, hcs, rfl⟩ := mapM_cons_eq_ok.mp hc
        have hy := (hr u y v).mpr ⟨x, hx, hcx⟩
        have hys := (ih false v ys t).mpr ⟨xs, hxs, hcs⟩
        exact items_eq_ok.mpr (.inr ⟨u, y, v, ys, hnext, hy, hys, rfl⟩)

/-- **Checking the items is checking the array.** -/
theorem readArray (hr : Checks c r r') (fuel : ℕ) :
    Checks (List.mapM c) (readArray fuel r) (Json.readArray fuel r') := by
  intro s ys t
  constructor
  · intro h
    obtain ⟨u, v, hopen, hys, hend⟩ := readArray_eq_ok.mp h
    obtain ⟨xs, hxs, hc⟩ := (hr.items fuel true u ys v).mp hys
    exact ⟨xs, readArray_eq_ok.mpr ⟨u, v, hopen, hxs, hend⟩, hc⟩
  · rintro ⟨xs, h, hc⟩
    obtain ⟨u, v, hopen, hxs, hend⟩ := readArray_eq_ok.mp h
    have hys := (hr.items fuel true u ys v).mpr ⟨xs, hxs, hc⟩
    exact readArray_eq_ok.mpr ⟨u, v, hopen, hys, hend⟩

theorem document {r : ℕ → Reader ε α} {r' : ℕ → Reader ε β} (hr : ∀ n, Checks c (r n) (r' n))
    (b : Bytes) (y : β) :
    Json.document r' b = .ok y ↔ ∃ x, Json.document r b = .ok x ∧ c x = .ok y := by
  constructor
  · intro h
    obtain ⟨t, hy, hrest⟩ := document_eq_ok_iff.mp h
    obtain ⟨x, hx, hc⟩ := (hr _ b y t).mp hy
    exact ⟨x, document_eq_ok_iff.mpr ⟨t, hx, hrest⟩, hc⟩
  · rintro ⟨x, h, hc⟩
    obtain ⟨t, hx, hrest⟩ := document_eq_ok_iff.mp h
    exact document_eq_ok_iff.mpr ⟨t, (hr _ b y t).mpr ⟨x, hx, hc⟩, hrest⟩

end Checks

end Json

/-! ### Documents -/

namespace Wire

open Json

theorem checks_metric (fuel : ℕ) : Checks Draft.metric? (draft fuel) (metric fuel) := by
  intro s m t
  rw [metric]
  rcases draft (ε := Refusal) fuel s with f | ⟨d, u⟩
  · simp
  · cases hm : d.metric? <;> simp [hm, and_comm, eq_comm]

/-- Whatever the reasons for a rejection are, the same drafts are read. -/
theorem document_draft_eq_ok_iff {b : Bytes} {d : Draft} :
    document (ε := Refusal) draft b = .ok d ↔ decodeDraft b = .ok d := by
  rw [← document_map (draft_map Empty.elim), mapError_eq_ok, decodeDraft]

theorem document_drafts_eq_ok_iff {b : Bytes} {ds : List Draft} :
    document (ε := Refusal) (fun fuel => readArray fuel (draft fuel)) b = .ok ds ↔
      decodeDrafts b = .ok ds := by
  rw [← document_map fun fuel => readArray_map (draft_map Empty.elim fuel) fuel, mapError_eq_ok,
    decodeDrafts]

theorem decode_eq_ok_iff {b : Bytes} {m : Metric} :
    decode b = .ok m ↔ ∃ d, decodeDraft b = .ok d ∧ d.metric? = .ok m := by
  simp only [decode, Checks.document checks_metric, document_draft_eq_ok_iff]

theorem decodeAll_eq_ok_iff {b : Bytes} {ms : List Metric} :
    decodeAll b = .ok ms ↔ ∃ ds, decodeDrafts b = .ok ds ∧ ds.mapM Draft.metric? = .ok ms := by
  simp only [decodeAll, Checks.document fun fuel => (checks_metric fuel).readArray fuel,
    document_drafts_eq_ok_iff]

end Wire

end Telemetry
