import Telemetry.Proofs.Store.Accumulation
import Telemetry.Proofs.Store.Alike
import Telemetry.Proofs.Store.Retries

/-!
# What a store shows

Every store shows a table: its own, that of the file it mirrors, or the one that its rows describe.
A call that saves metrics leaves another. If the call succeeds, all of them have been merged. If it
fails, some of them may have been, those before the one that was refused, but never the last. If it
is abandoned in front of a file, all of them have been merged or none.

## Main definitions

* `Telemetry.Table.Partly` — a table after a part of some metrics, without the last
* `Telemetry.Store.Shows` — the table that a store shows
* `Telemetry.Store.Reliable` — a store whose database, if it is one, answers by its rules or fails
* `Telemetry.Store.Merges` — what a call that saves metrics leaves
* `Telemetry.Store.level?` — where a gauge stands

## Main results

* `Telemetry.Store.Shows.save`, `Telemetry.Store.Shows.saveAll` — what they leave
* `Telemetry.Table.Holds.level?` — a gauge stands at the last level that was merged
-/

namespace Telemetry

/-! ### Tables -/

namespace Table

/-- A part of the metrics has been merged into the table, and at least the last has not. -/
def Partly (t : Table) (ms : List Metric) (u : Table) : Prop :=
  ∃ before rs, before <+: ms.dropLast ∧ t.Merges before rs u

/-- Where a gauge stands, if there is one. -/
def level? (t : Table) (id : String) : Option Binary64 :=
  match (t.get? ⟨id, .gauge⟩).map Metric.value with
  | some (.gauge x) => some x
  | _ => none

/-- **A gauge stands at the last level** that was merged. -/
theorem Holds.level? {t : Table} {past : List Metric} (h : t.Holds past) (id : String) :
    t.level? id = (levels id past).getLast? := by
  rw [Table.level?, h.last]
  cases (levels id past).getLast? <;> rfl

variable {t u : Table} {ms : List Metric}

theorem Partly.none (t : Table) (ms : List Metric) : t.Partly ms t :=
  ⟨[], [], List.nil_prefix, .nil t⟩

/-- A batch that is refused has been merged in part. -/
theorem partly_of_applyAll {e : StoreError} (h : (t.applyAll ms).1 = .error e) :
    t.Partly ms (t.applyAll ms).2 := by
  induction ms generalizing t e with
  | nil => cases h
  | cons m ms ih =>
    cases hm : merge (t.get? m.key) m with
    | error e' =>
      have hall : t.applyAll (m :: ms) = (.error e', t) := by
        simp only [applyAll, apply, hm]
      rw [hall]
      exact .none t _
    | ok r =>
      rw [applyAll_cons hm] at h
      rw [applyAll_cons_snd hm]
      cases hrest : ((t.put r).applyAll ms).1 with
      | ok rs =>
        rw [hrest] at h
        cases h
      | error e' =>
        obtain ⟨before, rs, hbefore, hmerges⟩ := ih hrest
        cases ms with
        | nil => cases hrest
        | cons x ms =>
          exact ⟨m :: before, r :: rs, (List.prefix_cons_inj m).mpr hbefore, .cons hm hmerges⟩

/-- What a change that merges metrics may make of a table: it merges all of them if it succeeds,
and not the last if it fails. -/
def MergesBy {α : Type} (change : PersistentTable.Change α) (ms : List Metric) : Prop :=
  ∀ t : Table, (∀ a u, change t = (.ok a, u) → ∃ rs, t.Merges ms rs u) ∧
    ∀ e u, change t = (.error e, u) → t.Partly ms u

theorem mergesBy_apply (m : Metric) : MergesBy (fun t => t.apply m) [m] := by
  intro t
  refine ⟨fun r u h => ⟨[r], apply_eq_ok_iff.mp h⟩, fun e u h => ?_⟩
  have happly : t.apply m = (.error e, u) := h
  have hsame := snd_apply_of_not_isOk (t := t) (m := m) (by rw [happly]; rfl)
  rw [happly] at hsame
  exact hsame ▸ .none t [m]

theorem mergesBy_applyAll (ms : List Metric) : MergesBy (fun t => t.applyAll ms) ms := by
  intro t
  refine ⟨fun rs u h => ⟨rs, applyAll_eq_ok_iff.mp h⟩, fun e u h => ?_⟩
  have hall : t.applyAll ms = (.error e, u) := h
  have hpartly := partly_of_applyAll (congrArg Prod.fst hall)
  rwa [hall] at hpartly

end Table

namespace PersistentTable

/-- Under any policy, what a change makes of a table with a file is what it may make of a table. -/
theorem mergesBy_write {α : Type} {change : Change α} {ms : List Metric}
    (h : Table.MergesBy change ms) (m : PersistentTable) :
    (∀ a, (m.write change).1 = .ok a → ∃ rs, m.table.Merges ms rs (m.write change).2.table) ∧
      ∀ e, (m.write change).1 = .error e → m.table.Partly ms (m.write change).2.table := by
  obtain ⟨hok, herror⟩ := h m.table
  cases hpolicy : m.policy with
  | every seconds =>
    have hwrite : m.write change = m.begin change := by simp only [write, hpolicy]
    rw [hwrite]
    exact ⟨fun a ha => hok a _ (Prod.ext ha rfl), fun e he => herror e _ (Prod.ext he rfl)⟩
  | immediate =>
    obtain ⟨-, ⟨a, hwrite, hchange, -⟩ | ⟨e, hwrite, htable, -⟩⟩ := m.write_cases hpolicy change
    · refine ⟨fun _ _ => hok a _ hchange, fun e he => ?_⟩
      rw [hwrite] at he
      cases he
    · refine ⟨fun a ha => ?_, fun _ _ => ?_⟩
      · rw [hwrite] at ha
        cases ha
      · rw [htable]
        exact .none _ _

end PersistentTable

/-! ### Stores -/

namespace Store

/-- Can the store be relied on? A database may fail in any way, but it must not make up rows, and
its relation has to hold the rows of metrics. -/
def Reliable : Store → Prop
  | .database d => d.session.Honest ∧ ∃ t, d.session.table.Represents t
  | _ => True

/-- Is this the table that a store shows? -/
def Shows : Store → Table → Prop
  | .memory u, t => u = t
  | .persistent m, t => m.table = t
  | .database d, t => d.session.Honest ∧ d.session.table.Represents t

/-- A store can be relied on if there is a table that it shows. -/
theorem reliable_iff {b : Store} : b.Reliable ↔ ∃ t, b.Shows t := by
  cases b with
  | memory t => exact iff_of_true trivial ⟨t, rfl⟩
  | persistent m => exact iff_of_true trivial ⟨m.table, rfl⟩
  | database d => exact exists_and_left.symm

/-- Where a gauge stands, if there is one. -/
def level? (b : Store) (id : String) : Option Binary64 :=
  match b with
  | .memory t => t.level? id
  | .persistent m => m.table.level? id
  | .database d => (d.session.table.select? id Kind.gauge.word).bind Row.value

/-- The gauges of a store are those of the table that it shows. -/
theorem Shows.level? {b : Store} {t : Table} (h : b.Shows t) (id : String) :
    b.level? id = t.level? id := by
  cases b with
  | memory u => rw [Store.level?, show u = t from h]
  | persistent m => rw [Store.level?, show m.table = t from h]
  | database d =>
    rw [Store.level?, Table.level?, h.2.select? ⟨id, .gauge⟩]
    cases hget : t.get? ⟨id, .gauge⟩ with
    | none => rfl
    | some m =>
      obtain ⟨-, hkey⟩ := Table.get?_eq_some_iff.mp hget
      obtain ⟨name, x | n⟩ := m
      · rfl
      · cases hkey

/-- What a call that saves metrics leaves of a store that shows a table. -/
structure Merges {α : Type} (t : Table) (ms : List Metric) (f : Finished α) : Prop where
  success : ∀ a, f.1 = .returned (.ok a) → ∃ rs u, t.Merges ms rs u ∧ f.2.Shows u
  failure : ∀ e, f.1 = .returned (.error e) → ∃ u, t.Partly ms u ∧ f.2.Shows u
  abandoned : f.1 = .abandoned → ∃ u, (u = t ∨ ∃ rs, t.Merges ms rs u) ∧ f.2.Shows u

variable {α : Type} {t : Table} {ms : List Metric}

theorem merges_memory {change : PersistentTable.Change α} (h : Table.MergesBy change ms)
    (t : Table) : Merges t ms (.returned (change t).1, .memory (change t).2) where
  success a ha := by
    obtain ⟨rs, hmerges⟩ := (h t).1 a (change t).2 (Prod.ext (Ending.returned.inj ha) rfl)
    exact ⟨rs, _, hmerges, rfl⟩
  failure e he := ⟨_, (h t).2 e (change t).2 (Prod.ext (Ending.returned.inj he) rfl), rfl⟩
  abandoned := nofun

/-- However long a change in front of a file is waited for, what comes of it is known. -/
theorem merges_persistent {change : PersistentTable.Change α} (h : Table.MergesBy change ms)
    (m : PersistentTable) (steps : Option ℕ) :
    Merges m.table ms ((m.writeFor steps change).1, .persistent (m.writeFor steps change).2) := by
  rcases m.writeFor_table steps change with hwhole | ⟨hcut, htable⟩
  · rw [hwhole]
    obtain ⟨hsuccess, hfailure⟩ := PersistentTable.mergesBy_write h m
    refine ⟨fun a ha => ?_, fun e he => ⟨_, hfailure e (Ending.returned.inj he), rfl⟩, nofun⟩
    obtain ⟨rs, hmerges⟩ := hsuccess a (Ending.returned.inj ha)
    exact ⟨rs, _, hmerges, rfl⟩
  · refine ⟨fun a ha => ?_, fun e he => ?_, fun _ => ⟨_, ?_, rfl⟩⟩
    · rw [hcut] at ha
      cases ha
    · rw [hcut] at he
      cases he
    · exact htable.imp id fun ⟨a, hchange⟩ => (h m.table).1 a _ hchange

theorem merges_database {w : Write α} (hw : w.Atomic t) {d : Database}
    (hd : (Store.database d).Shows t) (deadline : Option ℕ) :
    Merges t w.metrics ((d.attempt deadline w.attempt).ending,
      .database (d.attempt deadline w.attempt).store) := by
  obtain ⟨hs, ht⟩ := hd
  have hhonest := hw.honest_attempt hs ht deadline
  rcases hw.attempt_cases hs ht deadline with ⟨htable, hnot⟩ | ⟨a, u, hok, hmerges, hu⟩
  · rw [← htable] at ht
    exact ⟨fun a ha => absurd ha (hnot a), fun _ _ => ⟨t, .none t _, hhonest, ht⟩,
      fun _ => ⟨t, .inl rfl, hhonest, ht⟩⟩
  · refine ⟨fun _ _ => ⟨_, u, hmerges, hhonest, hu⟩, fun e he => ?_, fun hcut => ?_⟩
    · rw [hok] at he
      cases he
    · rw [hok] at hcut
      cases hcut

/-- **One metric that is saved.** -/
theorem Shows.save {b : Store} (hb : b.Shows t) (deadline : Option Deadline) {m : Metric}
    (hm : m.isSound) : Merges t [m] (b.save deadline m) := by
  cases b with
  | memory u =>
    cases hb
    exact merges_memory (Table.mergesBy_apply m) t
  | persistent n =>
    cases hb
    exact merges_persistent (Table.mergesBy_apply m) n _
  | database d => exact merges_database (Write.single_atomic hm t) hb _

/-- **Metrics that are saved together.** -/
theorem Shows.saveAll {b : Store} (hb : b.Shows t) (deadline : Option Deadline)
    (hms : ∀ m ∈ ms, m.isSound) : Merges t ms (b.saveAll deadline ms) := by
  cases b with
  | memory u =>
    cases hb
    exact merges_memory (Table.mergesBy_applyAll ms) t
  | persistent n =>
    cases hb
    exact merges_persistent (Table.mergesBy_applyAll ms) n _
  | database d =>
    by_cases hnil : ms = []
    · subst hnil
      exact ⟨fun _ _ => ⟨[], t, .nil t, hb⟩, nofun, nofun⟩
    · rw [Store.saveAll, d.saveAll_of_ne_nil _ hnil]
      exact merges_database (Write.batch_atomic hms t) hb _

end Store
end Telemetry
