import Telemetry.Store.Database
import Telemetry.Proofs.Store.Representation

/-!
# Statements and transactions under faults

One attempt of a write, on a server that may refuse any statement and any beginning or end of a
transaction, but does not make up rows. Whatever is refused, the attempt merges all of its metrics
into the table or changes nothing, and on a server that refuses nothing it does what merging does.

## Main definitions

* `Telemetry.Session.Honest` — a server that answers by its rules or with an error
* `Telemetry.Session.Follows` — a session later in the same script

## Main results

* `Telemetry.Database.upsert_cases`, `Telemetry.Database.upsertAll_cases`
* `Telemetry.Database.transaction_cases` — a transaction merges all of its metrics or none
-/

namespace Telemetry

namespace Session

/-- Whatever the faults, no answer in the script is made of rows from nowhere. -/
def Honest (s : Session) : Prop := ∀ r ∈ s.script, ∀ rows, r ≠ .rows rows

/-- The later session has taken some answers off the scripts. -/
structure Follows (u s : Session) : Prop where
  script : u.script <:+ s.script
  control : u.control <:+ s.control

theorem Follows.refl (s : Session) : s.Follows s := ⟨List.suffix_rfl, List.suffix_rfl⟩

theorem Follows.trans {s u v : Session} (h : v.Follows u) (hu : u.Follows s) : v.Follows s :=
  ⟨h.script.trans hu.script, h.control.trans hu.control⟩

theorem Follows.honest {s u : Session} (h : u.Follows s) (hs : s.Honest) : u.Honest :=
  fun r hr => hs r (h.script.mem hr)

/-- A server without faults stays one. -/
theorem Follows.script_eq_nil {s u : Session} (h : u.Follows s) (hs : s.script = []) :
    u.script = [] := by
  have hsuffix := h.script
  rw [hs] at hsuffix
  exact List.eq_nil_of_suffix_nil hsuffix

theorem Follows.control_eq_nil {s u : Session} (h : u.Follows s) (hs : s.control = []) :
    u.control = [] := by
  have hsuffix := h.control
  rw [hs] at hsuffix
  exact List.eq_nil_of_suffix_nil hsuffix

/-- An honest server answers by its rules, or it refuses, which it does not without faults. -/
theorem reply_cases {s : Session} (hs : s.Honest) (q : Statement) :
    ∃ u : Session, u.Follows s ∧ u.table = s.table ∧
      (s.reply q = (.proper, u) ∨ ∃ e, s.reply q = (.failure e, u) ∧ s.script ≠ []) := by
  cases hscript : s.script with
  | nil =>
    refine ⟨{ s with log := q :: s.log }, ⟨List.suffix_rfl, List.suffix_rfl⟩, rfl, .inl ?_⟩
    rw [reply, hscript]
  | cons r rs =>
    refine ⟨{ s with script := rs, log := q :: s.log }, ⟨?_, List.suffix_rfl⟩, rfl, ?_⟩
    · rw [hscript]
      exact List.suffix_cons r rs
    · cases r with
      | proper => exact .inl (by rw [reply, hscript])
      | failure e => exact .inr ⟨e, by rw [reply, hscript], by simp⟩
      | rows rows => exact absurd rfl (hs (.rows rows) (by simp [hscript]) rows)

/-- A transaction begins or ends, or the server refuses, which it does not without faults. -/
theorem controlReply_cases (s : Session) (q : Statement) :
    ∃ u : Session, u.Follows s ∧ u.table = s.table ∧
      (s.controlReply q = (none, u) ∨ ∃ e, s.controlReply q = (some e, u) ∧ s.control ≠ []) := by
  cases hcontrol : s.control with
  | nil =>
    refine ⟨{ s with log := q :: s.log }, ⟨List.suffix_rfl, List.suffix_rfl⟩, rfl, .inl ?_⟩
    rw [controlReply, hcontrol]
  | cons r rs =>
    refine ⟨{ s with control := rs, log := q :: s.log }, ⟨List.suffix_rfl, ?_⟩, rfl, ?_⟩
    · rw [hcontrol]
      exact List.suffix_cons r rs
    · cases r with
      | none => exact .inl (by rw [controlReply, hcontrol])
      | some e => exact .inr ⟨e, by rw [controlReply, hcontrol], by simp⟩

end Session

namespace Database

variable {s : Session} {t : Table}

/-- **One statement merges its metric or changes nothing.** Without faults it is refused only as
merging is. -/
theorem upsert_cases (hs : s.Honest) (ht : s.table.Represents t) {m : Metric} (hm : m.isSound) :
    ∃ u : Session, u.Follows s ∧
      ((∃ y, upsert s m = (.ok y, u) ∧ merge (t.get? m.key) m = .ok y ∧
          u.table.Represents (t.put y)) ∨
        ∃ e, upsert s m = (.error e, u) ∧ u.table = s.table ∧
          (s.script = [] → merge (t.get? m.key) m = .error e)) := by
  obtain ⟨u, hfollows, htable, hreply | ⟨e, hreply, hfault⟩⟩ :=
    Session.reply_cases hs (.upsert (.ofMetric m))
  · rw [← htable] at ht
    rcases ht.upsert hm with ⟨y, r, hmerge, hupsert, hr⟩ | ⟨hmerge, hupsert⟩
    · refine ⟨{ u with table := r }, ⟨hfollows.script, hfollows.control⟩, .inl ⟨y, ?_, hmerge, hr⟩⟩
      simp only [upsert, Session.upsert, hreply, hupsert]
      rw [Row.metric_ofMetric (isSound_of_merge hmerge hm)]
    · refine ⟨u, hfollows, .inr ⟨.overflow m.id, ?_, htable, fun _ => hmerge⟩⟩
      simp only [upsert, Session.upsert, hreply, hupsert]
      rfl
  · refine ⟨u, hfollows, .inr ⟨upsertError m.id e, ?_, htable, fun h => absurd h hfault⟩⟩
    simp only [upsert, Session.upsert, hreply]

/-- Statements one after the other merge their metrics up to the first that is refused. -/
theorem upsertAll_cases (hs : s.Honest) (ht : s.table.Represents t) {ms : List Metric}
    (hms : ∀ m ∈ ms, m.isSound) :
    ∃ u : Session, u.Follows s ∧
      ((∃ ys v, upsertAll s ms = (.ok ys, u) ∧ t.Merges ms ys v ∧ u.table.Represents v) ∨
        ∃ e, upsertAll s ms = (.error e, u) ∧ (s.script = [] → (t.applyAll ms).1 = .error e)) := by
  induction ms generalizing s t with
  | nil => exact ⟨s, Session.Follows.refl s, .inl ⟨[], t, rfl, .nil t, ht⟩⟩
  | cons m ms ih =>
    have hm : m.isSound := hms m List.mem_cons_self
    have hrest : ∀ x ∈ ms, x.isSound := fun x hx => hms x (List.mem_cons_of_mem _ hx)
    obtain ⟨u, hfirst, ⟨y, hupsert, hmerge, hu⟩ | ⟨e, hupsert, -, herror⟩⟩ :=
      upsert_cases hs ht hm
    · obtain ⟨w, hfollows, ⟨ys, v, hall, hmerges, hw⟩ | ⟨e, hall, herror⟩⟩ :=
        ih (hfirst.honest hs) hu hrest
      · refine ⟨w, hfollows.trans hfirst, .inl ⟨y :: ys, v, ?_, .cons hmerge hmerges, hw⟩⟩
        simp only [upsertAll, hupsert, hall]
      · refine ⟨w, hfollows.trans hfirst, .inr ⟨e, by simp only [upsertAll, hupsert, hall], ?_⟩⟩
        intro hscript
        rw [Table.applyAll_cons hmerge, herror (hfirst.script_eq_nil hscript)]
        rfl
    · refine ⟨u, hfirst, .inr ⟨e, by simp only [upsertAll, hupsert], fun hscript => ?_⟩⟩
      exact Table.applyAll_cons_of_error (herror hscript) ms

/-- **A transaction merges all of its metrics or changes nothing**, whether a statement in it was
refused, its beginning or its end. Without faults it is refused only as merging is. -/
theorem transaction_cases (hs : s.Honest) (ht : s.table.Represents t) {ms : List Metric}
    (hms : ∀ m ∈ ms, m.isSound) :
    ∃ u : Session, u.Follows s ∧
      ((∃ ys v, transaction s ms = (.ok ys, u) ∧ t.Merges ms ys v ∧ u.table.Represents v) ∨
        ∃ e, transaction s ms = (.error e, u) ∧ u.table = s.table ∧
          (s.script = [] → s.control = [] → (t.applyAll ms).1 = .error e)) := by
  obtain ⟨b, hbegin, hbtable, hreply | ⟨e, hreply, hfault⟩⟩ :=
    Session.controlReply_cases s .begin
  · rw [← hbtable] at ht
    obtain ⟨u, hbody, ⟨ys, v, hall, hmerges, hu⟩ | ⟨e, hall, herror⟩⟩ :=
      upsertAll_cases (hbegin.honest hs) ht hms
    · obtain ⟨c, hend, hctable, hcommit | ⟨e, hcommit, hfault⟩⟩ :=
        Session.controlReply_cases u .commit
      · rw [← hctable] at hu
        refine ⟨c, (hend.trans hbody).trans hbegin, .inl ⟨ys, v, ?_, hmerges, hu⟩⟩
        simp only [transaction, hreply, hall, hcommit]
      · have hfollows := (hend.trans hbody).trans hbegin
        refine ⟨undo b.table c, ⟨hfollows.script, hfollows.control⟩, .inr ⟨.database e, ?_, hbtable,
          fun _ hcontrol => ?_⟩⟩
        · simp only [transaction, hreply, hall, hcommit]
        · exact absurd ((hbody.trans hbegin).control_eq_nil hcontrol) hfault
    · have hfollows := hbody.trans hbegin
      refine ⟨undo b.table u, ⟨hfollows.script, hfollows.control⟩, .inr ⟨e, ?_, hbtable,
        fun hscript _ => herror (hbegin.script_eq_nil hscript)⟩⟩
      simp only [transaction, hreply, hall]
  · refine ⟨b, hbegin, .inr ⟨.database e, ?_, hbtable, fun _ hcontrol => absurd hcontrol hfault⟩⟩
    simp only [transaction, hreply]

end Database
end Telemetry
