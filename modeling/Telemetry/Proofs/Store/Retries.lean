import Telemetry.Proofs.Backoff
import Telemetry.Proofs.Store.Transaction

/-!
# Writes with retries

An upsert adds up, so a write may only be attempted again because a failed attempt leaves no trace.
Whatever the server refuses, a write of sound metrics merges each of them once or changes nothing,
in one attempt more than failed in a way that may pass.

## Main definitions

* `Telemetry.DbFailure.MayPass` — the failures after which a write is attempted again
* `Telemetry.Write` — a write, as it is attempted
* `Telemetry.Write.Settled` — how a write ends
* `Telemetry.Write.Overflows` — a result out of range in an attempt that is begun
* `Telemetry.Relation.Reached` — the relations that writes leave

## Main results

* `Telemetry.Write.Atomic.settled` — what is atomic in one attempt is settled in all of them
* `Telemetry.Relation.Reached.represents` — writes leave rows of metrics
* `Telemetry.Database.writesSettle_of_reached` — every write ends like that
-/

namespace Telemetry

/-! ### Failures that may pass -/

/-- No connection in the pool, a lost connection, a lost race or a server that is not ready. -/
def DbFailure.MayPass (g : DbFailure) : Prop :=
  g = .acquire ∨ ∃ phase code, g = .runtime phase (.server (some code)) ∧
    (['0', '8'] <+: code.toList ∨ code ∈ ["40000", "40001", "40P01", "57P03"])

theorem isTransientCode_iff (code : String) : isTransientCode code = true ↔
    ['0', '8'] <+: code.toList ∨ code ∈ ["40000", "40001", "40P01", "57P03"] := by
  rw [isTransientCode, Bool.or_eq_true, decide_eq_true_iff, List.contains_iff_mem,
    List.prefix_iff_eq_take, eq_comm]
  rfl

theorem DbFailure.isTransient_iff (g : DbFailure) : g.isTransient = true ↔ g.MayPass := by
  rcases g with _ | ⟨phase, ⟨_ | code⟩ | _⟩ | _ | _
  · simp [isTransient, MayPass]
  · simp [isTransient, MayPass, code?]
  · simp [isTransient, MayPass, code?, isTransientCode_iff]
  · simp [isTransient, MayPass, code?]
  · simp [isTransient, MayPass, code?]
  · simp [isTransient, MayPass, code?]

/-- Only the database fails in ways that may pass. -/
theorem exists_mayPass {es : List StoreError} (h : ∀ e ∈ es, e.isTransient = true) :
    ∃ gs : List DbFailure, es = gs.map .database ∧ ∀ g ∈ gs, g.MayPass := by
  induction es with
  | nil => exact ⟨[], rfl, by simp⟩
  | cons e es ih =>
    obtain ⟨gs, rfl, hgs⟩ := ih fun x hx => h x (List.mem_cons_of_mem _ hx)
    have he : e.isTransient = true := h e List.mem_cons_self
    cases e with
    | database g =>
      refine ⟨g :: gs, rfl, fun x hx => ?_⟩
      rcases List.mem_cons.mp hx with rfl | hx
      · exact (DbFailure.isTransient_iff x).mp he
      · exact hgs x hx
    | overflow | disk | unreadable | migration | invalidRow => cases he

/-! ### Results out of range -/

/-- To the upsert of a metric the server answers that the result is out of range. -/
def Session.OutOfRange (s : Session) (m : Metric) : Prop :=
  ∃ g u, s.upsert (.ofMetric m) = (.error g, u) ∧ g.code? = some outOfRange

/-- In a transaction that begins, the upserts before that of a metric are answered with rows, and
then the server answers that the result is out of range. -/
def Session.OutOfRangeIn (ms : List Metric) (s : Session) (m : Metric) : Prop :=
  ∃ before after b rs u, ms = before ++ m :: after ∧ s.controlReply .begin = (none, b) ∧
    Database.upsertAll b before = (.ok rs, u) ∧ u.OutOfRange m

namespace Database

theorem upsert_of_outOfRange {s : Session} {m : Metric} (h : s.OutOfRange m) :
    ∃ u, upsert s m = (.error (.overflow m.id), u) := by
  obtain ⟨g, u, hupsert, hcode⟩ := h
  refine ⟨u, ?_⟩
  simp only [upsert, hupsert, upsertError, if_pos hcode]

theorem upsertAll_of_outOfRange {s u : Session} {before rs : List Metric} {m : Metric}
    (after : List Metric) (hbefore : upsertAll s before = (.ok rs, u)) (h : u.OutOfRange m) :
    ∃ v, upsertAll s (before ++ m :: after) = (.error (.overflow m.id), v) := by
  induction before generalizing s rs with
  | nil =>
    cases hbefore
    obtain ⟨v, hm⟩ := upsert_of_outOfRange h
    exact ⟨v, by simp only [List.nil_append, upsertAll, hm]⟩
  | cons x before ih =>
    rcases hx : upsert s x with ⟨_ | y, v⟩
    · simp [upsertAll, hx] at hbefore
    · rcases hrest : upsertAll v before with ⟨_ | ys, w⟩
      · simp [upsertAll, hx, hrest] at hbefore
      · obtain ⟨-, rfl⟩ : y :: ys = rs ∧ w = u := by simpa [upsertAll, hx, hrest] using hbefore
        obtain ⟨z, hall⟩ := ih hrest
        exact ⟨z, by simp only [List.cons_append, upsertAll, hx, hall]⟩

theorem transaction_of_outOfRangeIn {s : Session} {ms : List Metric} {m : Metric}
    (h : s.OutOfRangeIn ms m) : ∃ u, transaction s ms = (.error (.overflow m.id), u) := by
  obtain ⟨before, after, b, rs, u, rfl, hbegin, hbefore, hm⟩ := h
  obtain ⟨v, hall⟩ := upsertAll_of_outOfRange after hbefore hm
  exact ⟨undo b.table v, by simp only [transaction, hbegin, hall]⟩

end Database

/-! ### Writes in all their attempts -/

variable {α : Type}

/-- A write: the metrics that it merges, the records that its answer lists, one attempt at it, and
when a result is out of range for a metric in an attempt that begins in a session. -/
structure Write (α : Type) where
  metrics : List Metric
  records : α → List Metric
  attempt : Session → Except StoreError α × Session
  OutOfRange : Session → Metric → Prop

namespace Write

/-- A statement of its own for one metric. -/
def single (m : Metric) : Write Metric where
  metrics := [m]
  records a := [a]
  attempt s := Database.upsert s m
  OutOfRange s x := x = m ∧ s.OutOfRange m

/-- One transaction for all metrics. -/
def batch (ms : List Metric) : Write (List Metric) where
  metrics := ms
  records := id
  attempt s := Database.transaction s ms
  OutOfRange s x := s.OutOfRangeIn ms x

/-- Where the relation represents a table, an attempt merges all metrics into it or leaves the
relation as it is, and it is refused for a result out of range as the overflow of the counter. -/
structure Atomic (w : Write α) (t : Table) : Prop where
  cases : ∀ s : Session, s.Honest → s.table.Represents t → ∃ u : Session, u.Follows s ∧
    ((∃ a v, w.attempt s = (.ok a, u) ∧ t.Merges w.metrics (w.records a) v ∧
        u.table.Represents v) ∨
      ∃ e, w.attempt s = (.error e, u) ∧ u.table = s.table)
  overflow : ∀ s x, w.OutOfRange s x → ∃ u, w.attempt s = (.error (.overflow x.id), u)

theorem single_atomic {m : Metric} (hm : m.isSound) (t : Table) : (single m).Atomic t where
  cases := by
    intro s hs ht
    obtain ⟨u, hu, ⟨y, hupsert, hmerge, hy⟩ | ⟨e, hupsert, htable, -⟩⟩ :=
      Database.upsert_cases hs ht hm
    · exact ⟨u, hu, .inl ⟨y, t.put y, hupsert, .cons hmerge (.nil _), hy⟩⟩
    · exact ⟨u, hu, .inr ⟨e, hupsert, htable⟩⟩
  overflow := by
    rintro s x ⟨rfl, h⟩
    exact Database.upsert_of_outOfRange h

theorem batch_atomic {ms : List Metric} (hms : ∀ m ∈ ms, m.isSound) (t : Table) :
    (batch ms).Atomic t where
  cases := by
    intro s hs ht
    obtain ⟨u, hu, ⟨ys, v, hall, hmerges, hv⟩ | ⟨e, hall, htable, -⟩⟩ :=
      Database.transaction_cases hs ht hms
    · exact ⟨u, hu, .inl ⟨ys, v, hall, hmerges, hv⟩⟩
    · exact ⟨u, hu, .inr ⟨e, hall, htable⟩⟩
  overflow _ _ h := Database.transaction_of_outOfRangeIn h

/-- Whatever it is attempted on, a write that fails leaves an honest server with the same rows, and
one that succeeds does so on such a server. -/
theorem Atomic.attempt_course {w : Write α} {t : Table} (hw : w.Atomic t) {d : Database}
    (hs : d.session.Honest) (ht : d.session.table.Represents t) (deadline : Option ℕ) :
    let f := d.attempt deadline w.attempt
    (f.store.session.Honest ∧ f.store.session.table = d.session.table ∧
        ∀ a, f.ending ≠ .returned (.ok a)) ∨
      ∃ s a, s.Honest ∧ s.table.Represents t ∧ w.attempt s = (.ok a, f.store.session) ∧
        f.ending = .returned (.ok a) := by
  intro f
  have hfail : ∀ (_ : ℕ) (s : Session) (e : StoreError) (u : Session),
      s.Honest ∧ s.table = d.session.table → w.attempt s = (.error e, u) →
        u.Honest ∧ u.table = d.session.table := by
    rintro - s e u ⟨hsh, hst⟩ herror
    obtain ⟨v, hv, ⟨a, _, hok, -⟩ | ⟨e', hv', htable⟩⟩ := hw.cases s hsh (hst ▸ ht)
    · rw [herror] at hok
      cases hok
    · rw [herror] at hv'
      cases hv'
      exact ⟨hv.honest hsh, htable.trans hst⟩
  have hrun := Backoff.attempts_invariant
    (I := fun s : Session => s.Honest ∧ s.table = d.session.table) hfail
    StoreError.isTransient deadline d.backoff.delays 0 ⟨hs, rfl⟩
  rcases hrun with ⟨⟨hhonest, htable⟩, hending⟩ | ⟨_, u, a, ⟨hu, hutable⟩, hop, hending⟩
  · exact .inl ⟨hhonest, htable, hending⟩
  · exact .inr ⟨u, a, hu, hutable ▸ ht, hop, hending⟩

/-- **However often it is attempted and however it ends, a write merges its metrics or changes
nothing.** -/
theorem Atomic.attempt_cases {w : Write α} {t : Table} (hw : w.Atomic t) {d : Database}
    (hs : d.session.Honest) (ht : d.session.table.Represents t) (deadline : Option ℕ) :
    let f := d.attempt deadline w.attempt
    (f.store.session.table = d.session.table ∧ ∀ a, f.ending ≠ .returned (.ok a)) ∨
      ∃ a u, f.ending = .returned (.ok a) ∧ t.Merges w.metrics (w.records a) u ∧
        f.store.session.table.Represents u := by
  rcases hw.attempt_course hs ht deadline with
    ⟨-, htable, hending⟩ | ⟨s, a, hsh, hst, hop, hending⟩
  · exact .inl ⟨htable, hending⟩
  · obtain ⟨v, -, ⟨b, x, hok, hmerges, hx⟩ | ⟨e, herror, -⟩⟩ := hw.cases s hsh hst
    · rw [hop] at hok
      cases hok
      exact .inr ⟨a, x, hending, hmerges, hx⟩
    · rw [hop] at herror
      cases herror

/-- A server that was honest still is when a write has ended. -/
theorem Atomic.honest_attempt {w : Write α} {t : Table} (hw : w.Atomic t) {d : Database}
    (hs : d.session.Honest) (ht : d.session.table.Represents t) (deadline : Option ℕ) :
    (d.attempt deadline w.attempt).store.session.Honest := by
  rcases hw.attempt_course hs ht deadline with ⟨hhonest, -⟩ | ⟨s, a, hsh, hst, hop, -⟩
  · exact hhonest
  · obtain ⟨v, hv, ⟨b, x, hok, -⟩ | ⟨e, herror, -⟩⟩ := hw.cases s hsh hst
    · rw [hop] at hok
      cases hok
      exact hv.honest hsh
    · rw [hop] at herror
      cases herror

/-- How a write into a table ends, when it failed in vain some times before the attempt that gave
the result. -/
structure Settled (w : Write α) (t : Table) (d : Database) (f : Database.Finished α)
    (failures : List DbFailure) (result : Except StoreError α) : Prop where
  /-- There was no other attempt, and each began in the session that the one before it left. -/
  attempts : Backoff.repeated w.attempt (failures.length + 1) d.session
    = (failures.map (fun g => .error (.database g)) ++ [result], f.store.session)
  ending : f.ending = .returned result
  /-- There was a delay before each further attempt. -/
  count : failures.length ≤ d.backoff.delays.length
  /-- It was attempted again only after failures that may pass. -/
  passing : ∀ g ∈ failures, g.MayPass
  /-- It was attempted again after each of them, as long as there were delays. -/
  last : failures.length = d.backoff.delays.length ∨
    ∀ g, result = .error (.database g) → ¬ g.MayPass
  /-- A result out of range in any attempt was the end of the call. -/
  overflow : ∀ i ≤ failures.length, ∀ x,
    w.OutOfRange (Backoff.repeated w.attempt i d.session).2 x →
      i = failures.length ∧ result = .error (.overflow x.id)
  /-- A success merged each metric once. -/
  merged : ∀ a, result = .ok a →
    ∃ u, t.Merges w.metrics (w.records a) u ∧ f.store.session.table.Represents u
  /-- A failure changed nothing. -/
  unchanged : ∀ e, result = .error e → f.store.session.table = d.session.table

/-- **What is atomic in one attempt is settled in all of them.** -/
theorem Atomic.settled {w : Write α} {t : Table} (hw : w.Atomic t) {d : Database}
    (hs : d.session.Honest) (ht : d.session.table.Represents t) :
    ∃ failures result, w.Settled t d (d.attempt none w.attempt) failures result := by
  obtain ⟨es, result, hcourse⟩ := Backoff.exists_course StoreError.isTransient
    (fun _ => w.attempt) d.backoff.delays 0 d.session
  obtain ⟨failures, rfl, hpass⟩ := exists_mayPass hcourse.passing
  have hcount : failures.length ≤ d.backoff.delays.length := by simpa using hcourse.count
  have hattempts : Backoff.repeated w.attempt (failures.length + 1) d.session
      = (failures.map (fun g => .error (.database g)) ++ [result],
          (d.attempt none w.attempt).store.session) := by
    have hmoments : ((d.backoff.delays.scanl (· + ·) 0).take
        ((failures.map StoreError.database).length + 1)).length = failures.length + 1 := by
      rw [List.length_take, List.length_scanl, List.length_map]
      exact Nat.min_eq_left (Nat.succ_le_succ hcount)
    have houtcomes := hcourse.outcomes
    rw [Backoff.outcomes_const, hmoments, List.map_map] at houtcomes
    exact houtcomes
  have hending : (d.attempt none w.attempt).ending = .returned result := hcourse.ending
  have hcases := hw.attempt_cases hs ht none
  refine ⟨failures, result, hattempts, hending, hcount, hpass, ?_, ?_, ?_, ?_⟩
  · refine hcourse.last.imp (by simp) fun hlast g hg hmay => ?_
    have hg' : StoreError.isTransient (.database g) = false := hlast _ hg
    rw [StoreError.isTransient, (DbFailure.isTransient_iff g).mpr hmay] at hg'
    cases hg'
  · intro i hi x hx
    -- the attempt that hits the overflow reports it, and no failure in the list is one
    have hreport := Backoff.getElem?_repeated w.attempt (Nat.lt_succ_of_le hi) d.session
    obtain ⟨u, hoverflow⟩ := hw.overflow _ x hx
    rw [hoverflow, hattempts] at hreport
    rcases Nat.lt_or_eq_of_le hi with hlt | rfl
    · rw [List.getElem?_append_left (by simpa using hlt)] at hreport
      simp [hlt] at hreport
    · rw [List.getElem?_append_right (by simp)] at hreport
      exact ⟨rfl, by simpa using hreport⟩
  · rintro a rfl
    rcases hcases with ⟨-, hnot⟩ | ⟨b, u, hb, hmerges, hu⟩
    · exact absurd hending (hnot a)
    · rw [hending] at hb
      cases hb
      exact ⟨u, hmerges, hu⟩
  · rintro e rfl
    rcases hcases with ⟨htable, -⟩ | ⟨b, u, hb, -, -⟩
    · exact htable
    · rw [hending] at hb
      cases hb

/-- In an attempt that is begun before the deadline, the result for a metric is out of range. -/
def Overflows (w : Write α) (d : Database) (deadline : Option ℕ) (x : Metric) : Prop :=
  ∃ now s, Backoff.Begins StoreError.isTransient (fun _ => w.attempt) deadline d.backoff.delays 0
    d.session now s ∧ w.OutOfRange s x

/-- A result out of range is the end of the call, whatever was to come. -/
theorem Atomic.ending_of_overflows {w : Write α} {t : Table} (hw : w.Atomic t) {d : Database}
    {deadline : Option ℕ} {x : Metric} (h : w.Overflows d deadline x) :
    (d.attempt deadline w.attempt).ending = .returned (.error (.overflow x.id)) := by
  obtain ⟨now, s, hbegins, hrange⟩ := h
  obtain ⟨u, hattempt⟩ := hw.overflow s x hrange
  rw [Database.attempt, Backoff.runUntil, hbegins.attempts_eq hattempt rfl]

end Write

/-! ### Relations that writes leave -/

/-- The relations that this program leaves: the empty one, and whatever a write of sound metrics
makes of one, under any faults and however it ends. -/
inductive Relation.Reached : Relation → Prop
  | empty : Reached {}
  | save {d : Database} {m : Metric} (h : Reached d.session.table) (hs : d.session.Honest)
      (hm : m.isSound) (deadline : Option ℕ) :
      Reached (d.save deadline m).store.session.table
  | saveAll {d : Database} {ms : List Metric} (h : Reached d.session.table)
      (hs : d.session.Honest) (hms : ∀ m ∈ ms, m.isSound) (deadline : Option ℕ) :
      Reached (d.saveAll deadline ms).store.session.table

theorem Database.saveAll_of_ne_nil (d : Database) (deadline : Option ℕ) {ms : List Metric}
    (h : ms ≠ []) : d.saveAll deadline ms = d.attempt deadline (Write.batch ms).attempt := by
  rw [saveAll, if_neg (by simpa using h)]
  rfl

/-- **Writes leave rows of metrics.** -/
theorem Relation.Reached.represents {r : Relation} (h : r.Reached) : ∃ t, r.Represents t := by
  induction h with
  | empty => exact ⟨.empty, represents_empty⟩
  | @save d m _ hs hm deadline ih =>
    obtain ⟨t, ht⟩ := ih
    rcases (Write.single_atomic hm t).attempt_cases hs ht deadline with
      ⟨htable, -⟩ | ⟨_, u, -, -, hu⟩
    · exact ⟨t, htable ▸ ht⟩
    · exact ⟨u, hu⟩
  | @saveAll d ms _ hs hms deadline ih =>
    obtain ⟨t, ht⟩ := ih
    by_cases hnil : ms = []
    · subst hnil
      exact ⟨t, ht⟩
    · rw [d.saveAll_of_ne_nil deadline hnil]
      rcases (Write.batch_atomic hms t).attempt_cases hs ht deadline with
        ⟨htable, -⟩ | ⟨_, u, -, -, hu⟩
      · exact ⟨t, htable ▸ ht⟩
      · exact ⟨u, hu⟩

namespace Database

/-- The rows are those of a table, and every write of sound metrics into it settles; a batch
without metrics is not attempted at all. -/
def WritesSettle (d : Database) : Prop :=
  ∃ t, d.session.table.Represents t ∧
    (∀ m : Metric, m.isSound → ∃ failures result,
      (Write.single m).Settled t d (d.save none m) failures result) ∧
    (∀ ms ≠ [], (∀ m ∈ ms, m.isSound) → ∃ failures result,
      (Write.batch ms).Settled t d (d.saveAll none ms) failures result) ∧
    d.saveAll none [] = d.idle []

/-- **Under any faults, every write is atomic and is made at most once**, wherever the writes
before it left the relation. -/
theorem writesSettle_of_reached {d : Database} (hr : d.session.table.Reached)
    (hs : d.session.Honest) : d.WritesSettle := by
  obtain ⟨t, ht⟩ := hr.represents
  refine ⟨t, ht, fun m hm => ?_, fun ms hnil hms => ?_, rfl⟩
  · exact (Write.single_atomic hm t).settled hs ht
  · rw [d.saveAll_of_ne_nil none hnil]
    exact (Write.batch_atomic hms t).settled hs ht

/-- A counter is stored, and then the server is short of connections, loses a race and a
connection. -/
def troubled : Database :=
  let stored := (({} : Database).save none ⟨"polls", .counter 5⟩).store
  { stored with session := { stored.session with
      script := [.failure .acquire, .failure (.runtime .query (.server (some "40001")))]
      control := [none, none, none, some (.runtime .execute (.server (some "08006")))] } }

theorem reached_troubled : troubled.session.table.Reached :=
  .save (d := {}) (m := ⟨"polls", .counter 5⟩) .empty (by simp [Session.Honest]) (by decide) none

theorem honest_troubled : troubled.session.Honest := by
  intro r hr rows
  have hfault : r = .failure .acquire ∨
      r = .failure (.runtime .query (.server (some "40001"))) := by
    simpa [troubled] using hr
  rcases hfault with rfl | rfl <;> simp

theorem writesSettle_troubled :
    troubled.session.table.Reached ∧ troubled.session.Honest ∧ troubled.WritesSettle :=
  ⟨reached_troubled, honest_troubled, writesSettle_of_reached reached_troubled honest_troubled⟩

example : (troubled.saveAll none [⟨"polls", .counter 2⟩]).store.session.table.rows
    = [⟨"polls", "counter", some 7, none⟩] := by
  decide

end Database
end Telemetry
