import Telemetry.Proofs.Store.Refinement
import Telemetry.Proofs.Store.Steps

/-!
# Stores that hold the same

A metric may be saved by itself or in a batch of its own. A table in memory and a table in a file
go through the same changes either way. A database is sent other statements, but without faults it
holds the same rows afterwards, since a batch that is refused at its only metric has nothing to
undo.

## Main definitions

* `Telemetry.Store.Faultless` — a store that can be relied on
* `Telemetry.Store.Alike` — two stores that hold the same
* `Telemetry.Store.attempt` — a call of which only the success is told

## Main results

* `Telemetry.Store.Alike.respond` — a metric saved in either way
-/

namespace Telemetry

/-- A call that saves a metric and nothing else. -/
def Call.Saves (m : Metric) (q : Call) : Prop := q = .save m ∨ q = .saveAll [m]

namespace Table

theorem isOk_applyAll_singleton (t : Table) (m : Metric) :
    (t.applyAll [m]).1.isOk = (t.apply m).1.isOk := by
  rw [applyAll]
  rcases t.apply m with ⟨e | x, u⟩ <;> rfl

theorem snd_applyAll_singleton (t : Table) (m : Metric) :
    (t.applyAll [m]).2 = (t.apply m).2 := by
  rw [applyAll]
  rcases t.apply m with ⟨e | x, u⟩ <;> rfl

/-- A metric that is refused changes nothing. -/
theorem snd_apply_of_not_isOk {t : Table} {m : Metric} (h : (t.apply m).1.isOk = false) :
    (t.apply m).2 = t := by
  rw [apply] at h ⊢
  split at h
  · rfl
  · cases h

end Table

namespace PersistentTable

/-- Changes that leave the same table, and are refused together, are written alike. -/
theorem write_congr {α β : Type} {m : PersistentTable} {c : Change α} {c' : Change β}
    (hok : (c m.table).1.isOk = (c' m.table).1.isOk) (htable : (c m.table).2 = (c' m.table).2) :
    (m.write c).1.isOk = (m.write c').1.isOk ∧ (m.write c).2 = (m.write c').2 := by
  simp only [write, begin]
  generalize c m.table = f at hok htable
  generalize c' m.table = f' at hok htable
  obtain ⟨r, u⟩ := f
  obtain ⟨r', u'⟩ := f'
  cases htable
  cases m.policy with
  | every n => exact ⟨hok, rfl⟩
  | immediate =>
    rcases r with e | a <;> rcases r' with e' | a'
    · exact ⟨rfl, rfl⟩
    · cases hok
    · cases hok
    · dsimp only
      generalize flush _ = g
      rcases g with ⟨e | ⟨⟩, n⟩ <;> exact ⟨rfl, rfl⟩

/-- Two procedures come along together: they leave the same state after any number of steps, and
they return together, both with success or both without. -/
def Abreast {α β : Type} (p : Procedure PersistentTable (Except StoreError α))
    (q : Procedure PersistentTable (Except StoreError β)) (m : PersistentTable) : Prop :=
  ∀ k, p.stateAfter k m = q.stateAfter k m ∧
    (p.resultAfter k m).map Except.isOk = (q.resultAfter k m).map Except.isOk

section Abreast

variable {α β : Type} {m : PersistentTable}

theorem abreast_done {r : Except StoreError α} {r' : Except StoreError β}
    (h : r.isOk = r'.isOk) : Abreast (.done r) (.done r') m
  | 0 => ⟨rfl, rfl⟩
  | _ + 1 => ⟨rfl, congrArg some h⟩

/-- Procedures with the same first step come along together if those that follow it do. -/
theorem abreast_call {γ δ : Type} {f : PersistentTable → γ × PersistentTable}
    {g : PersistentTable → δ × PersistentTable}
    {next : γ → Procedure PersistentTable (Except StoreError α)}
    {next' : δ → Procedure PersistentTable (Except StoreError β)} (hstate : (f m).2 = (g m).2)
    (h : Abreast (next (f m).1) (next' (g m).1) (f m).2) :
    Abreast (.call f next) (.call g next') m
  | 0 => ⟨rfl, rfl⟩
  | k + 1 => by
    simpa only [Procedure.call, Procedure.stateAfter, Procedure.resultAfter, ← hstate] using h k

theorem abreast_abandoning (checkpoint : Table) (e : StoreError) :
    Abreast (abandoning (α := α) checkpoint e) (abandoning (α := β) checkpoint e) m :=
  abreast_call rfl (abreast_done rfl)

/-- How a file is written does not depend on what is returned then. -/
theorem abreast_persisting (checkpoint : Table) (a : α) (b : β) :
    Abreast (persisting checkpoint a) (persisting checkpoint b) m := by
  refine abreast_call rfl ?_
  cases m.draft.1 with
  | error e => exact abreast_abandoning checkpoint e
  | ok =>
    refine abreast_call rfl ?_
    cases m.draft.2.publish.1 with
    | error e => exact abreast_abandoning checkpoint e
    | ok => exact abreast_done rfl

theorem abreast_saving {c : Change α} {c' : Change β}
    (hok : (c m.table).1.isOk = (c' m.table).1.isOk) (htable : (c m.table).2 = (c' m.table).2) :
    Abreast (saving c) (saving c') m := by
  rcases hc : c m.table with ⟨e | a, u⟩ <;> rcases hc' : c' m.table with ⟨e' | a', u'⟩ <;>
    rw [hc, hc'] at hok htable
  · refine abreast_call ?_ ?_ <;> rw [attempt_of_error hc, attempt_of_error hc']
    exact abreast_done rfl
  · cases hok
  · cases hok
  · cases htable
    refine abreast_call ?_ ?_ <;> rw [attempt_of_ok hc, attempt_of_ok hc']
    exact abreast_persisting m.table a a'

/-- So are changes that are waited for only so long. -/
theorem writeFor_congr {c : Change α} {c' : Change β}
    (hok : (c m.table).1.isOk = (c' m.table).1.isOk) (htable : (c m.table).2 = (c' m.table).2)
    (steps : Option ℕ) :
    (m.writeFor steps c).1.isOk = (m.writeFor steps c').1.isOk ∧
      (m.writeFor steps c).2 = (m.writeFor steps c').2 := by
  cases steps with
  | none => exact write_congr hok htable
  | some k =>
    cases hpolicy : m.policy with
    | every seconds =>
      simp only [writeFor, hpolicy]
      exact write_congr hok htable
    | immediate =>
      obtain ⟨hstate, hresult⟩ := abreast_saving hok htable k
      simp only [writeFor, hpolicy]
      refine ⟨?_, hstate⟩
      generalize (saving c).resultAfter k m = r? at hresult
      generalize (saving c').resultAfter k m = r'? at hresult
      cases r? with
      | none =>
        cases r'? with
        | none => rfl
        | some r' => cases hresult
      | some r =>
        cases r'? with
        | none => cases hresult
        | some r' => exact Option.some.inj hresult

end Abreast

end PersistentTable

namespace Store

/-- Can the store be relied on? A database has to answer by its rules, and its relation to hold the
rows of metrics. -/
def Faultless : Store → Prop
  | .database d => ∃ t, d.Simulates t
  | _ => True

/-- Two stores that hold the same metrics and, if there is one, the same file. Of databases the
relations hold the same, whatever was sent before. -/
inductive Alike : Store → Store → Prop
  | memory (t : Table) : Alike (.memory t) (.memory t)
  | persistent (m : PersistentTable) : Alike (.persistent m) (.persistent m)
  | database {d e : Database} {t : Table} (hd : d.Simulates t) (he : e.Simulates t) :
      Alike (.database d) (.database e)

theorem Alike.eq_memory {b : Store} {t : Table} (h : b.Alike (.memory t)) : b = .memory t := by
  cases h
  rfl

theorem Faultless.alike {b : Store} (h : b.Faultless) : b.Alike b := by
  cases b with
  | memory t => exact .memory t
  | persistent m => exact .persistent m
  | database d =>
    obtain ⟨t, ht⟩ := h
    exact .database ht ht

/-- A database that saves a metric in either way. -/
theorem respond_simulates {d : Database} {t : Table} (h : d.Simulates t)
    (deadline : Option Deadline) {m : Metric} (hm : m.isSound) {q : Call} (hq : q.Saves m) :
    ∃ d' : Database, ((Store.database d).respond deadline q).1.isOk = (t.apply m).1.isOk ∧
      ((Store.database d).respond deadline q).2 = .database d' ∧ d'.Simulates (t.apply m).2 := by
  rcases hq with rfl | rfl
  · obtain ⟨d', hsave, hd'⟩ := h.save (deadline.map Deadline.moment) hm
    refine ⟨d', ?_, ?_, hd'⟩ <;> simp only [respond, save, hsave] <;> rfl
  · obtain ⟨d', hsave, hd'⟩ :=
      h.saveAll (deadline.map Deadline.moment) (List.forall_mem_singleton.mpr hm)
    rw [Table.isOk_applyAll_singleton, Table.snd_applyAll_singleton] at hd'
    have hleft : (if (t.apply m).1.isOk then (t.apply m).2 else t) = (t.apply m).2 := by
      split
      · rfl
      · rename_i hrefused
        exact (Table.snd_apply_of_not_isOk (by simpa using hrefused)).symm
    rw [hleft] at hd'
    refine ⟨d', ?_, ?_, hd'⟩ <;> simp only [respond, saveAll, hsave]
    · exact t.isOk_applyAll_singleton m
    · rfl

/-- **A metric is saved in either way with the same outcome**: it is refused by both or by none of
two stores that hold the same, and they hold the same afterwards. -/
theorem Alike.respond {b c : Store} (h : b.Alike c) (deadline : Option Deadline) {m : Metric}
    (hm : m.isSound) {q : Call} (hq : q.Saves m) :
    (b.respond deadline q).1.isOk = (c.respond deadline (.save m)).1.isOk ∧
      (b.respond deadline q).2.Alike (c.respond deadline (.save m)).2 := by
  cases h with
  | memory t =>
    rcases hq with rfl | rfl
    · exact ⟨rfl, .memory _⟩
    · refine ⟨t.isOk_applyAll_singleton m, ?_⟩
      change Alike (.memory (t.applyAll [m]).2) (.memory (t.apply m).2)
      rw [t.snd_applyAll_singleton]
      exact .memory _
  | persistent n =>
    rcases hq with rfl | rfl
    · exact ⟨rfl, .persistent _⟩
    · let batch : PersistentTable.Change (List Metric) := fun t => t.applyAll [m]
      let single : PersistentTable.Change Metric := fun t => t.apply m
      have hsame : (batch n.table).1.isOk = (single n.table).1.isOk :=
        n.table.isOk_applyAll_singleton m
      have htable : (batch n.table).2 = (single n.table).2 := n.table.snd_applyAll_singleton m
      obtain ⟨hok, hleft⟩ :=
        PersistentTable.writeFor_congr hsame htable (deadline.bind Deadline.steps)
      refine ⟨hok, ?_⟩
      change Alike (.persistent (n.writeFor _ _).2) (.persistent (n.writeFor _ _).2)
      rw [hleft]
      exact .persistent _
  | database hd he =>
    obtain ⟨d', hok, hleft, hd'⟩ := respond_simulates hd deadline hm hq
    obtain ⟨e', hok', hleft', he'⟩ := respond_simulates he deadline hm (.inl rfl)
    rw [hleft, hleft', hok, hok']
    exact ⟨rfl, .database hd' he'⟩

/-- One attempt at a call, of which only the success is told. -/
def attempt (deadline : Option Deadline) (q : Call) (b : Store) : Except Unit Unit × Store :=
  (if (b.respond deadline q).1.isOk then .ok () else .error (), (b.respond deadline q).2)

end Store
end Telemetry
