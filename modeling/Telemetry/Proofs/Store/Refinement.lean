import Telemetry.Proofs.Backoff
import Telemetry.Proofs.Store.Transaction
import Telemetry.Store

/-!
# A database against a table in memory

On a server without faults a database gives the answers of a table in memory, call by call, but for
what a refused batch leaves: the table keeps the metrics before the refused one, the database keeps
none of them.

## Main definitions

* `Telemetry.Call`, `Telemetry.Answer`, `Telemetry.Store.respond` — a store as callers see it
* `Telemetry.Store.respondWhole` — the same, where a refused batch leaves no trace
* `Telemetry.Database.Simulates` — a database that stands for a table

## Main results

* `Telemetry.Database.Simulates.respond` — one call
* `Telemetry.Store.answers_database` — any sequence of calls
* `Telemetry.Store.answers_respondWhole` — where no batch is refused, nothing differs
-/

namespace Telemetry

/-! ### Calls and answers -/

/-- What callers ask of a store. -/
inductive Call where
  | save (m : Metric)
  | saveAll (ms : List Metric)
  | get (k : Key)
  | getAll
  deriving DecidableEq, Repr

/-- Are all metrics in the call sound? -/
def Call.isSound : Call → Bool
  | .save m => m.isSound
  | .saveAll ms => ms.all Metric.isSound
  | .get _ | .getAll => true

/-- The metrics that a call saves. -/
def Call.metrics : Call → List Metric
  | .save m => [m]
  | .saveAll ms => ms
  | .get _ | .getAll => []

/-- How a call ends, by what it returns. -/
inductive Answer where
  | saved (e : Ending StoreError Metric)
  | savedAll (e : Ending StoreError (List Metric))
  | found (e : Ending StoreError (Option Metric))
  | listed (e : Ending StoreError (List Metric))

/-- Does an answer tell of success? -/
def Answer.isOk : Answer → Bool
  | .saved e => e.isOk
  | .savedAll e => e.isOk
  | .found e => e.isOk
  | .listed e => e.isOk

namespace Store

/-- Answers a call. -/
def respond (deadline : Option Deadline) (b : Store) : Call → Answer × Store
  | .save m => ((b.save deadline m).map .saved id)
  | .saveAll ms => ((b.saveAll deadline ms).map .savedAll id)
  | .get k => ((b.get deadline k).map .found id)
  | .getAll => ((b.getAll deadline).map .listed id)

/-- Answers a call, but a batch that is refused leaves the store as it was. -/
def respondWhole (deadline : Option Deadline) (b : Store) (q : Call) : Answer × Store :=
  match b.respond deadline q with
  | (.savedAll (.returned (.error e)), _) => (.savedAll (.returned (.error e)), b)
  | answered => answered

/-- The answers to calls, one after the other. -/
def answers (respond : Store → Call → Answer × Store) : Store → List Call → List Answer
  | _, [] => []
  | b, q :: qs => (respond b q).1 :: answers respond (respond b q).2 qs

end Store

/-! ### One call -/

namespace Database

variable {α : Type}

/-- A call that succeeds, or fails in a way that does not pass, is not attempted again. -/
theorem attempt_of_not_transient (d : Database) (deadline : Option ℕ)
    {op : Session → Except StoreError α × Session} {r : Except StoreError α} {u : Session}
    (hop : op d.session = (r, u)) (hr : ∀ e, r = .error e → e.isTransient = false) :
    d.attempt deadline op = ⟨.returned r, { d with session := u }, 0⟩ := by
  simp only [attempt, Backoff.runUntil]
  cases d.backoff.delays with
  | nil => simp only [Backoff.attempts, hop]
  | cons delay delays =>
    cases r with
    | ok a => simp only [Backoff.attempts, hop]
    | error e => simp [Backoff.attempts, hop, hr e rfl]

/-- A database on a server without faults that holds the rows of a table. -/
structure Simulates (d : Database) (t : Table) : Prop where
  represents : d.session.table.Represents t
  script : d.session.script = []
  control : d.session.control = []

variable {d : Database} {t : Table}

theorem Simulates.honest (h : d.Simulates t) : d.session.Honest := by
  intro r hr
  rw [h.script] at hr
  cases hr

/-- Later in the session, the database stands for the table whose rows it then holds. -/
theorem Simulates.of_follows (h : d.Simulates t) {u : Session} {v : Table}
    (hu : u.Follows d.session) (hv : u.table.Represents v) :
    Simulates { d with session := u } v :=
  ⟨hv, hu.script_eq_nil h.script, hu.control_eq_nil h.control⟩

theorem Simulates.save (h : d.Simulates t) (deadline : Option ℕ) {m : Metric} (hm : m.isSound) :
    ∃ d' : Database, d.save deadline m = ⟨.returned (t.apply m).1, d', 0⟩ ∧
      d'.Simulates (t.apply m).2 := by
  obtain ⟨u, hu, ⟨y, hupsert, hmerge, hy⟩ | ⟨e, hupsert, htable, herror⟩⟩ :=
    upsert_cases h.honest h.represents hm
  · refine ⟨{ d with session := u }, ?_, ?_⟩
    · rw [Database.save, d.attempt_of_not_transient deadline hupsert (by simp)]
      simp [Table.apply, hmerge]
    · rw [Table.apply, hmerge]
      exact h.of_follows hu hy
  · have hmerge := herror h.script
    have hpermanent : e.isTransient = false := by rw [eq_overflow_of_merge hmerge]; rfl
    refine ⟨{ d with session := u }, ?_, ?_⟩
    · rw [Database.save, d.attempt_of_not_transient deadline hupsert
        (by rintro x ⟨rfl⟩; exact hpermanent)]
      simp [Table.apply, hmerge]
    · rw [Table.apply, hmerge]
      exact h.of_follows hu (htable ▸ h.represents)

/-- A batch that is refused by a database leaves the table that it found. -/
theorem Simulates.saveAll (h : d.Simulates t) (deadline : Option ℕ) {ms : List Metric}
    (hms : ∀ m ∈ ms, m.isSound) :
    ∃ d' : Database, d.saveAll deadline ms = ⟨.returned (t.applyAll ms).1, d', 0⟩ ∧
      d'.Simulates (if (t.applyAll ms).1.isOk then (t.applyAll ms).2 else t) := by
  by_cases hnil : ms = []
  · subst hnil
    exact ⟨d, rfl, h⟩
  have hattempt : d.saveAll deadline ms = d.attempt deadline fun s => transaction s ms := by
    rw [Database.saveAll, if_neg (by simpa using hnil)]
  rw [hattempt]
  obtain ⟨u, hu, ⟨ys, v, hall, hmerges, hv⟩ | ⟨e, hall, htable, herror⟩⟩ :=
    transaction_cases h.honest h.represents hms
  · have happly := Table.applyAll_eq_ok_iff.mpr hmerges
    refine ⟨{ d with session := u }, ?_, ?_⟩
    · rw [d.attempt_of_not_transient deadline hall (by simp), happly]
    · rw [happly]
      exact h.of_follows hu hv
  · have happly := herror h.script h.control
    obtain ⟨m, -, rfl⟩ := Table.exists_overflow_of_applyAll happly
    refine ⟨{ d with session := u }, ?_, ?_⟩
    · rw [d.attempt_of_not_transient deadline hall (by rintro x ⟨rfl⟩; rfl), happly]
    · rw [happly]
      exact h.of_follows hu (htable ▸ h.represents)

/-- Without faults, a statement is answered by the rules of the server. -/
theorem Simulates.reply (h : d.Simulates t) (q : Statement) :
    ∃ u : Session, d.session.reply q = (.proper, u) ∧ u.table = d.session.table ∧
      Simulates { d with session := u } t := by
  obtain ⟨u, hu, htable, hreply | ⟨e, -, hfault⟩⟩ := Session.reply_cases h.honest q
  · exact ⟨u, hreply, htable, h.of_follows hu (htable ▸ h.represents)⟩
  · exact absurd h.script hfault

theorem Simulates.get (h : d.Simulates t) (deadline : Option ℕ) (k : Key) :
    ∃ d' : Database, d.get deadline k = ⟨.returned (.ok (t.get? k)), d', 0⟩ ∧
      d'.Simulates t := by
  obtain ⟨u, hreply, htable, hu⟩ := h.reply (.select k)
  have hselect : d.session.select k = (.ok ((t.get? k).map Row.ofMetric), u) := by
    simp only [Session.select, hreply]
    rw [hu.represents.select? k]
  refine ⟨{ d with session := u }, ?_, hu⟩
  rw [Database.get, d.attempt_of_not_transient deadline (u := u)
    (r := .ok ((t.get? k).map Row.ofMetric)) (by rw [hselect]) (by simp)]
  cases hget : t.get? k with
  | none => rfl
  | some m =>
    have hm : m.isSound := (h.represents.isSound_of_get? hget).1
    simp [Finished.bind, Row.metric_ofMetric hm, Except.map]

theorem Simulates.getAll (h : d.Simulates t) (deadline : Option ℕ) :
    ∃ d' : Database, d.getAll deadline = ⟨.returned (.ok t.entries), d', 0⟩ ∧
      d'.Simulates t := by
  obtain ⟨u, hreply, htable, hu⟩ := h.reply .selectAll
  have hselect : d.session.selectAll = (.ok u.table.selectAll, u) := by
    simp only [Session.selectAll, hreply]
  obtain ⟨ms, hread, hsort⟩ := hu.represents.selectAll
  refine ⟨{ d with session := u }, ?_, hu⟩
  rw [Database.getAll, d.attempt_of_not_transient deadline (u := u)
    (r := .ok u.table.selectAll) (by rw [hselect]) (by simp)]
  simp only [Finished.bind, hread, Except.map, hsort]

/-- **A call to a database is answered as by the table that it stands for**, and afterwards it
stands for the table that is left. -/
theorem Simulates.respond (h : d.Simulates t) (deadline : Option Deadline) {q : Call}
    (hq : q.isSound) :
    ∃ a d' t', (Store.database d).respond deadline q = (a, .database d') ∧
      (Store.memory t).respondWhole deadline q = (a, .memory t') ∧ d'.Simulates t' := by
  cases q with
  | save m =>
    obtain ⟨d', hsave, hd'⟩ := h.save (deadline.map Deadline.moment) hq
    refine ⟨_, d', _, ?_, rfl, hd'⟩
    simp only [Store.respond, Store.save, hsave]
    rfl
  | saveAll ms =>
    have hms : ∀ m ∈ ms, m.isSound := by simpa [Call.isSound] using hq
    obtain ⟨d', hsave, hd'⟩ := h.saveAll (deadline.map Deadline.moment) hms
    refine ⟨.savedAll (.returned (t.applyAll ms).1), d', _, ?_, ?_, hd'⟩
    · simp only [Store.respond, Store.saveAll, hsave]
      rfl
    · rcases happly : t.applyAll ms with ⟨e | rs, u⟩
      · simp [Store.respondWhole, Store.respond, Store.saveAll, happly, Except.isOk, Except.toBool]
      · simp [Store.respondWhole, Store.respond, Store.saveAll, happly, Except.isOk, Except.toBool]
  | get k =>
    obtain ⟨d', hget, hd'⟩ := h.get (deadline.map Deadline.moment) k
    refine ⟨_, d', _, ?_, rfl, hd'⟩
    simp only [Store.respond, Store.get, hget]
    rfl
  | getAll =>
    obtain ⟨d', hgetAll, hd'⟩ := h.getAll (deadline.map Deadline.moment)
    refine ⟨_, d', _, ?_, rfl, hd'⟩
    simp only [Store.respond, Store.getAll, hgetAll]
    rfl

end Database

/-! ### Any sequence of calls -/

namespace Store

theorem answers_of_simulates {d : Database} {t : Table} (h : d.Simulates t)
    (deadline : Option Deadline) {calls : List Call} (hcalls : ∀ q ∈ calls, q.isSound) :
    answers (respond deadline) (.database d) calls
      = answers (respondWhole deadline) (.memory t) calls := by
  induction calls generalizing d t with
  | nil => rfl
  | cons q qs ih =>
    obtain ⟨a, d', t', hdatabase, hmemory, hnext⟩ :=
      h.respond deadline (hcalls q List.mem_cons_self)
    rw [answers, answers, hdatabase, hmemory,
      ih hnext fun x hx => hcalls x (List.mem_cons_of_mem _ hx)]

/-- **A database gives the answers of a table in memory** to any calls with sound metrics, but for
what a refused batch leaves: it keeps none of the metrics. -/
theorem answers_database (backoff : Backoff) (deadline : Option Deadline) {calls : List Call}
    (hcalls : ∀ q ∈ calls, q.isSound) :
    answers (respond deadline) (.database ⟨{}, backoff⟩) calls
      = answers (respondWhole deadline) (.memory .empty) calls :=
  answers_of_simulates ⟨Relation.represents_empty, rfl, rfl⟩ deadline hcalls

/-- A batch whose last counter overflows, and a look at what is left. -/
def overflowing : List Call :=
  [.save ⟨"polls", .counter 9223372036854775807⟩,
    .saveAll [⟨"sent", .counter 1⟩, ⟨"polls", .counter 1⟩],
    .get ⟨"sent", .counter⟩, .getAll]

theorem answers_database_overflowing :
    (∀ q ∈ overflowing, q.isSound) ∧
      answers (respond none) (.database ⟨{}, .standard⟩) overflowing
        = answers (respondWhole none) (.memory .empty) overflowing := by
  have hsound : ∀ q ∈ overflowing, q.isSound := by decide
  exact ⟨hsound, answers_database .standard none hsound⟩

example : (answers (respond none) (.memory .empty) overflowing).drop 2
      = [.found (.returned (.ok (some ⟨"sent", .counter 1⟩))),
        .listed (.returned (.ok [⟨"polls", .counter 9223372036854775807⟩, ⟨"sent", .counter 1⟩]))] ∧
    (answers (respondWhole none) (.memory .empty) overflowing).drop 2
      = [.found (.returned (.ok none)),
        .listed (.returned (.ok [⟨"polls", .counter 9223372036854775807⟩]))] := by
  constructor <;> rfl

/-- **Where no batch is refused, nothing differs.** -/
theorem answers_respondWhole (deadline : Option Deadline) {b : Store} {calls : List Call}
    (h : ∀ e, .savedAll (.returned (.error e)) ∉ answers (respond deadline) b calls) :
    answers (respondWhole deadline) b calls = answers (respond deadline) b calls := by
  induction calls generalizing b with
  | nil => rfl
  | cons q qs ih =>
    have hwhole : b.respondWhole deadline q = b.respond deadline q := by
      rw [respondWhole]
      split
      · rename_i e _ hrespond
        exact absurd (by rw [answers, hrespond]; exact List.mem_cons_self) (h e)
      · rfl
    rw [answers, answers, hwhole, ih]
    intro e he
    exact h e (List.mem_cons_of_mem _ he)

end Store
end Telemetry
