import Telemetry.Store.Table
import Mathlib.Data.List.Basic

/-!
# Merging into a table

What it means that metrics are merged one after the other into a table, and what the table then
holds. Every store merges; the tables of this relation are what the others are compared with.

## Main definitions

* `Telemetry.Unambiguous` — a list with one metric for a key at most
* `Telemetry.Table.Merges` — a table before and after metrics that were all accepted

## Main results

* `Telemetry.Table.eq_of_get?_eq` — a table is what it holds under each key
* `Telemetry.Table.get?_put` — a table after a metric is stored
* `Telemetry.Table.apply_eq_ok_iff`, `Telemetry.Table.applyAll_eq_ok_iff` — what the operations do
-/

namespace Telemetry

/-! ### What becomes of one metric -/

/-- A merged metric is stored under the key of the one that came in. -/
theorem key_of_merge {current : Option Metric} {m r : Metric} (h : merge current m = .ok r) :
    r.key = m.key := by
  simp only [merge] at h
  split at h
  · rename_i stored delta _ hv
    split at h
    · cases h
      simp [Metric.key, Metric.kind, Value.kind, hv]
    · cases h
  · cases h
    rfl

/-- Only the overflow of a counter is refused. -/
theorem eq_overflow_of_merge {current : Option Metric} {m : Metric} {e : StoreError}
    (h : merge current m = .error e) : e = .overflow m.id := by
  simp only [merge] at h
  split at h
  · split at h
    · cases h
    · cases h
      rfl
  · cases h

/-- What is merged from a sound metric is sound. -/
theorem isSound_of_merge {current : Option Metric} {m r : Metric} (h : merge current m = .ok r)
    (hm : m.isSound) : r.isSound := by
  simp only [merge] at h
  split at h
  · split at h
    · cases h
      simp_all [Metric.isSound, Value.isFinite]
    · cases h
  · cases h
    exact hm

/-! ### Metrics that are looked up -/

/-- No two different metrics of a list have one key. -/
def Unambiguous (ms : List Metric) : Prop := ∀ a ∈ ms, ∀ b ∈ ms, a.key = b.key → a = b

instance : DecidablePred Unambiguous := fun ms =>
  inferInstanceAs (Decidable (∀ a ∈ ms, ∀ b ∈ ms, a.key = b.key → a = b))

theorem Unambiguous.of_keys_ne {ms : List Metric} (h : ms.Pairwise fun a b => a.key ≠ b.key) :
    Unambiguous ms := by
  have hright : ms.Pairwise fun a b => a.key = b.key → a = b :=
    h.imp fun hne hkey => absurd hkey hne
  have hleft : ms.Pairwise fun a b => b.key = a.key → b = a :=
    h.imp fun hne hkey => absurd hkey.symm hne
  intro a ha b hb
  exact hright.forall_of_forall_of_flip (fun _ _ _ => rfl) hleft ha hb

theorem Unambiguous.of_perm {ms ns : List Metric} (h : Unambiguous ms) (hperm : ns.Perm ms) :
    Unambiguous ns :=
  fun a ha b hb => h a (hperm.mem_iff.mp ha) b (hperm.mem_iff.mp hb)

/-- What is found under a key is then the only metric that has it, wherever it stands. -/
theorem Unambiguous.find?_eq_some_iff {ms : List Metric} (h : Unambiguous ms) {k : Key}
    {m : Metric} : ms.find? (fun x => x.key = k) = some m ↔ m ∈ ms ∧ m.key = k := by
  have hsound : ∀ n, ms.find? (fun x => x.key = k) = some n → n ∈ ms ∧ n.key = k := by
    intro n hn
    exact ⟨List.mem_of_find?_eq_some hn, by simpa using List.find?_some hn⟩
  refine ⟨hsound m, fun ⟨hm, hk⟩ => ?_⟩
  cases hfound : ms.find? fun x => x.key = k with
  | none => exact absurd hk (by simpa using List.find?_eq_none.mp hfound m hm)
  | some n =>
    obtain ⟨hn, hnk⟩ := hsound n hfound
    rw [h n hn m hm (hnk.trans hk.symm)]

/-! ### Metrics that are sorted -/

theorem isLE_key_trans (a b c : Metric) (hab : (compare a.key b.key).isLE)
    (hbc : (compare b.key c.key).isLE) : (compare a.key c.key).isLE :=
  Std.TransCmp.isLE_trans hab hbc

theorem isLE_key_total (a b : Metric) :
    (compare a.key b.key).isLE || (compare b.key a.key).isLE := by
  cases hab : compare a.key b.key with
  | lt => rfl
  | eq => rfl
  | gt => rw [Std.OrientedCmp.lt_of_gt hab]; rfl

/-- Metrics that are sorted by their keys stand in the order of their keys. -/
theorem pairwise_mergeSort_key (ms : List Metric) :
    (ms.mergeSort fun a b => (compare a.key b.key).isLE).Pairwise fun a b =>
      (compare a.key b.key).isLE :=
  List.pairwise_mergeSort isLE_key_trans isLE_key_total ms

/-- Metrics with one key keep their order when they are sorted. -/
theorem filter_mergeSort_key (ms : List Metric) (k : Key) :
    (ms.mergeSort fun a b => (compare a.key b.key).isLE).filter (fun m => m.key = k)
      = ms.filter fun m => m.key = k := by
  have hsame : (ms.filter fun m => m.key = k).Pairwise fun a b =>
      (compare a.key b.key).isLE := by
    refine List.pairwise_of_forall_mem_list fun a ha b hb => ?_
    have hkeys : a.key = b.key :=
      (of_decide_eq_true (List.mem_filter.mp ha).2).trans
        (of_decide_eq_true (List.mem_filter.mp hb).2).symm
    rw [hkeys, Std.ReflOrd.compare_self]
    rfl
  have hsub : List.Sublist (ms.filter fun m => m.key = k)
      (ms.mergeSort fun a b => (compare a.key b.key).isLE) :=
    List.sublist_mergeSort isLE_key_trans isLE_key_total hsame List.filter_sublist
  have hkept := hsub.filter fun m => m.key = k
  rw [List.filter_filter] at hkept
  simp only [Bool.and_self] at hkept
  have hperm := (List.mergeSort_perm ms fun a b => (compare a.key b.key).isLE).filter
    fun m => m.key = k
  exact (hkept.eq_of_length hperm.length_eq.symm).symm

namespace Table

/-! ### Reading a table -/

/-- The order in which a table keeps its entries. -/
abbrev Precedes (a b : Metric) : Prop := compare a.key b.key = .lt

theorem ne_of_precedes {a b : Metric} (h : Precedes a b) : a.key ≠ b.key := by
  intro heq
  rw [Precedes, heq, Std.ReflOrd.compare_self] at h
  cases h

/-- Different entries have different keys. -/
theorem keys_ne (t : Table) : t.entries.Pairwise fun a b => a.key ≠ b.key :=
  t.sorted.imp ne_of_precedes

theorem unambiguous_entries (t : Table) : Unambiguous t.entries := .of_keys_ne t.keys_ne

theorem get?_eq_some_iff {t : Table} {k : Key} {m : Metric} :
    t.get? k = some m ↔ m ∈ t.entries ∧ m.key = k :=
  t.unambiguous_entries.find?_eq_some_iff

/-- The entries are what is found under their own keys. -/
theorem mem_entries_iff {t : Table} {m : Metric} : m ∈ t.entries ↔ t.get? m.key = some m :=
  ⟨fun hm => get?_eq_some_iff.mpr ⟨hm, rfl⟩, fun hm => (get?_eq_some_iff.mp hm).1⟩

/-- Tables that hold the same under every key are the same. -/
theorem eq_of_get?_eq {t u : Table} (h : ∀ k, t.get? k = u.get? k) : t = u := by
  have hnodup : ∀ v : Table, v.entries.Nodup := fun v =>
    v.keys_ne.imp fun hne heq => hne (congrArg Metric.key heq)
  have hperm : t.entries.Perm u.entries := by
    refine (List.perm_ext_iff_of_nodup (hnodup t) (hnodup u)).mpr fun m => ?_
    rw [mem_entries_iff, mem_entries_iff, h]
  refine Table.ext (hperm.eq_of_pairwise ?_ t.sorted u.sorted)
  intro a b _ _ hab hba
  rw [Std.OrientedCmp.gt_of_lt hab] at hba
  cases hba

theorem find?_insertEntry (m : Metric) (k : Key) {es : List Metric}
    (hes : es.Pairwise Precedes) :
    (insertEntry m es).find? (fun x => x.key = k)
      = if m.key = k then some m else es.find? fun x => x.key = k := by
  induction es with
  | nil => simp [insertEntry, List.find?_cons]; split <;> simp_all
  | cons e es ih =>
    obtain ⟨hhead, htail⟩ := List.pairwise_cons.mp hes
    simp only [insertEntry]
    split
    · simp only [List.find?_cons]
      by_cases hk : m.key = k <;> simp [hk]
    · rename_i heq
      have hkey : m.key = e.key := Std.LawfulEqOrd.eq_of_compare heq
      by_cases hk : m.key = k
      · simp [hk]
      · have hek : e.key ≠ k := hkey ▸ hk
        simp [hk, hek]
    · rename_i hgt
      have hne : e.key ≠ m.key := ne_of_precedes (Std.OrientedCmp.lt_of_gt hgt)
      by_cases hek : e.key = k
      · have hk : m.key ≠ k := fun h => hne (hek.trans h.symm)
        simp [hek, hk]
      · simp [hek, ih htail]

/-- **A table after a metric is stored** holds it under its key and is as before under any other. -/
theorem get?_put (t : Table) (m : Metric) (k : Key) :
    (t.put m).get? k = if m.key = k then some m else t.get? k :=
  find?_insertEntry m k t.sorted

/-- The entries under other keys stay, and the metric joins them. -/
theorem insertEntry_perm (m : Metric) {es : List Metric} (hes : es.Pairwise Precedes) :
    (insertEntry m es).Perm (m :: es.filter fun x => x.key ≠ m.key) := by
  induction es with
  | nil => rfl
  | cons e es ih =>
    obtain ⟨hhead, htail⟩ := List.pairwise_cons.mp hes
    simp only [insertEntry]
    split
    · rename_i hlt
      have hall : ∀ x ∈ e :: es, decide (x.key ≠ m.key) = true := by
        intro x hx
        rw [decide_eq_true_iff]
        rcases List.mem_cons.mp hx with rfl | hx
        · exact (ne_of_precedes hlt).symm
        · exact (ne_of_precedes (Std.TransCmp.lt_trans hlt (hhead x hx))).symm
      rw [List.filter_eq_self.mpr hall]
    · rename_i heq
      have hkey : m.key = e.key := Std.LawfulEqOrd.eq_of_compare heq
      have hall : ∀ x ∈ es, decide (x.key ≠ m.key) = true := by
        intro x hx
        rw [decide_eq_true_iff, hkey]
        exact (ne_of_precedes (hhead x hx)).symm
      rw [List.filter_cons_of_neg (by simp [hkey]), List.filter_eq_self.mpr hall]
    · rename_i hgt
      have hne : e.key ≠ m.key := ne_of_precedes (Std.OrientedCmp.lt_of_gt hgt)
      rw [List.filter_cons_of_pos (by simpa using hne)]
      exact ((ih htail).cons e).trans (.swap _ _ _)

/-! ### Metrics that are all accepted -/

/-- Merging the metrics one after the other into the first table refuses none of them, stores the
records and leaves the second table. -/
inductive Merges : Table → List Metric → List Metric → Table → Prop
  | nil (t : Table) : Merges t [] [] t
  | cons {t u : Table} {m r : Metric} {ms rs : List Metric}
      (head : merge (t.get? m.key) m = .ok r) (tail : Merges (t.put r) ms rs u) :
      Merges t (m :: ms) (r :: rs) u

theorem apply_eq_ok_iff {t u : Table} {m r : Metric} :
    t.apply m = (.ok r, u) ↔ t.Merges [m] [r] u := by
  constructor
  · intro h
    simp only [apply] at h
    split at h
    · cases h
    · rename_i hmerge
      cases h
      exact .cons hmerge (.nil _)
  · rintro ⟨⟩
    rename_i hmerge htail
    cases htail
    simp [apply, hmerge]

theorem applyAll_eq_ok_iff {t u : Table} {ms rs : List Metric} :
    t.applyAll ms = (.ok rs, u) ↔ t.Merges ms rs u := by
  constructor
  · intro h
    induction ms generalizing t rs with
    | nil => cases h; exact .nil _
    | cons m ms ih =>
      simp only [applyAll, apply] at h
      cases hm : merge (t.get? m.key) m with
      | error e => simp [hm] at h
      | ok r =>
        simp only [hm] at h
        rcases hrest : (t.put r).applyAll ms with ⟨_ | rest, v⟩
        · simp [hrest] at h
        · simp only [hrest, Prod.mk.injEq, Except.ok.injEq] at h
          obtain ⟨rfl, rfl⟩ := h
          exact .cons hm (ih hrest)
  · intro h
    induction h with
    | nil => rfl
    | cons hm _ ih => simp [applyAll, apply, hm, ih]

/-- What follows an accepted metric is merged into the table with the record. -/
theorem applyAll_cons {t : Table} {m r : Metric} (h : merge (t.get? m.key) m = .ok r)
    (ms : List Metric) :
    (t.applyAll (m :: ms)).1 = ((t.put r).applyAll ms).1.map (r :: ·) := by
  simp only [applyAll, apply, h]
  rcases (t.put r).applyAll ms with ⟨_ | _, _⟩ <;> rfl

theorem applyAll_cons_of_error {t : Table} {m : Metric} {e : StoreError}
    (h : merge (t.get? m.key) m = .error e) (ms : List Metric) :
    (t.applyAll (m :: ms)).1 = .error e := by
  simp only [applyAll, apply, h]

/-- Metrics are refused for the overflow of a counter among them. -/
theorem exists_overflow_of_applyAll {t : Table} {ms : List Metric} {e : StoreError}
    (h : (t.applyAll ms).1 = .error e) : ∃ m ∈ ms, e = .overflow m.id := by
  induction ms generalizing t with
  | nil => cases h
  | cons m ms ih =>
    cases hm : merge (t.get? m.key) m with
    | error e' =>
      rw [applyAll_cons_of_error hm] at h
      cases h
      exact ⟨m, List.mem_cons_self, eq_overflow_of_merge hm⟩
    | ok r =>
      rw [applyAll_cons hm] at h
      cases hrest : ((t.put r).applyAll ms).1 with
      | error e' =>
        rw [hrest] at h
        cases h
        obtain ⟨x, hx, he⟩ := ih hrest
        exact ⟨x, List.mem_cons_of_mem _ hx, he⟩
      | ok rest =>
        rw [hrest] at h
        cases h

/-- Batches merged one after the other are merged as one. -/
theorem Merges.append {t u v : Table} {ms ns rs ss : List Metric} (h : t.Merges ms rs u)
    (hu : u.Merges ns ss v) : t.Merges (ms ++ ns) (rs ++ ss) v := by
  induction h with
  | nil => exact hu
  | cons hm _ ih => exact .cons hm (ih hu)

theorem Merges.eq_of_nil {t u : Table} {rs : List Metric} (h : t.Merges [] rs u) : u = t := by
  cases h
  rfl

end Table
end Telemetry
