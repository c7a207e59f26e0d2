import Telemetry.Proofs.Http.Calls
import Telemetry.Proofs.Store.Retries

/-!
# Updates that run out of time

In front of a database a request may wait through the delays between attempts, and at its deadline
the handler is dropped. It is dropped between two attempts, and an attempt that failed has left
nothing, so a request that is answered by a timeout has changed nothing, like one that failed.
An update that succeeds has merged its metrics once, however many attempts it took.

## Main definitions

* `Telemetry.Call.Overflows` — a result out of range in an attempt that a call begins in time
* `Telemetry.Http.Recorded` — what may come of an update

## Main results

* `Telemetry.Http.Handled.recorded` — all that can become of an update
* `Telemetry.Http.Server.updates_recorded` — any request that is an update
-/

namespace Telemetry

/-- In an attempt that a call begins before the deadline, the result for a metric is out of
range. -/
def Call.Overflows (d : Database) (deadline : Option ℕ) : Call → Prop
  | .save m => ∃ x, (Write.single m).Overflows d deadline x
  | .saveAll ms => ∃ x, (Write.batch ms).Overflows d deadline x
  | .get _ | .getAll => False

/-- Nothing is out of range where nothing is written. -/
theorem Call.not_overflows_nil (d : Database) (deadline : Option ℕ) :
    ¬ (Call.saveAll []).Overflows d deadline := by
  rintro ⟨x, now, s, -, before, after, b, rs, u, hms, -⟩
  exact List.append_ne_nil_of_right_ne_nil before (List.cons_ne_nil x after) hms.symm

namespace Http

/-! ### What is seen of an answer -/

/-- The status that a client sees: without a response in time, that of a timeout. -/
def Answer.status (a : Answer) : ℕ := (a.1.map Response.status).getD 408

/-- Is this the status of a success? -/
def Succeeds (status : ℕ) : Prop := 200 ≤ status ∧ status < 300

instance : DecidablePred Succeeds := fun _ => inferInstanceAs (Decidable (_ ∧ _))

theorem isSuccess_iff_succeeds (r : Response) : r.isSuccess = true ↔ Succeeds r.status := by
  simp [Response.isSuccess, Succeeds]

theorem not_succeeds {r : Response} (h : r.isSuccess = false) : ¬ Succeeds r.status := by
  rw [← isSuccess_iff_succeeds, h]
  exact Bool.false_ne_true

section

variable {α : Type} {good : α → Response} {bad : StoreError → Response}

/-- The answer to an operation that returned a result. -/
theorem status_of_returned (htells : Tells good bad) {f : Store.Finished α} {a : α}
    (h : f.1 = .returned (.ok a)) : (conclude f good bad).status = 200 := by
  obtain ⟨ending, b⟩ := f
  cases h
  exact htells.success a

/-- The answer to an operation that returned none, in time or not at all. -/
theorem not_succeeds_of_returned (htells : Tells good bad) {f : Store.Finished α}
    (h : ∀ a, f.1 ≠ .returned (.ok a)) : ¬ Succeeds (conclude f good bad).status := by
  obtain ⟨(e | a) | _, b⟩ := f
  · exact not_succeeds (htells.failure e)
  · exact absurd rfl (h a)
  · show ¬ Succeeds 408
    decide

/-- The answer to an operation that met with a result out of range. -/
theorem status_of_overflow (htells : Tells good bad) {f : Store.Finished α} {id : String}
    (h : f.1 = .returned (.error (.overflow id))) : (conclude f good bad).status = 400 := by
  obtain ⟨ending, b⟩ := f
  cases h
  exact htells.overflow id

/-- The answer to an operation that did not return in time. -/
theorem status_of_abandoned {f : Store.Finished α} (h : f.1 = .abandoned) (good : α → Response)
    (bad : StoreError → Response) : (conclude f good bad).status = 408 := by
  obtain ⟨ending, b⟩ := f
  cases h
  rfl

theorem succeeds_conclude (htells : Tells good bad) (f : Store.Finished α) :
    Succeeds (conclude f good bad).status ↔ f.1.isOk = true := by
  obtain ⟨(e | a) | _, b⟩ := f
  · exact iff_of_false (not_succeeds_of_returned htells (by simp)) Bool.false_ne_true
  · refine iff_of_true ?_ rfl
    rw [status_of_returned htells rfl]
    decide
  · exact iff_of_false (not_succeeds_of_returned htells (by simp)) Bool.false_ne_true

end

section

variable {b : Store} {deadline : Option Deadline} {a : Answer}

/-- An update is answered with success if it asks something of the store and the store succeeds. -/
theorem Handled.succeeds_iff {asked? : Option Telemetry.Call} (h : Handled b deadline asked? a) :
    Succeeds a.status ↔ (asked?.any fun q => (b.respond deadline q).1.isOk) = true := by
  cases h with
  | refused hr => exact iff_of_false (not_succeeds hr) Bool.false_ne_true
  | save hm htells => exact succeeds_conclude htells _
  | saveAll hms htells => exact succeeds_conclude htells _

/-- An update leaves what the store leaves. -/
theorem Handled.left {q : Telemetry.Call} (h : Handled b deadline (some q) a) :
    a.2 = (b.respond deadline q).2 := by
  cases h with
  | save hm htells => exact conclude_snd _ _ _
  | saveAll hms htells => exact conclude_snd _ _ _

end

/-! ### What may come of an update -/

/-- What may come of an update in front of a database that holds the rows of a table. A failure,
and an answer that comes too late, leave the rows. A success has merged once what was asked for. A
result out of range is told as the client's fault. -/
structure Recorded (d : Database) (t : Table) (deadline : Option ℕ)
    (asked? : Option Telemetry.Call) (a : Answer) : Prop where
  outcome : ∃ d', a.2 = .database d' ∧
    ((a.status = 200 ∧ ∃ q rs u, asked? = some q ∧ t.Merges q.metrics rs u ∧
        d'.session.table.Represents u) ∨
      (¬ Succeeds a.status ∧ d'.session.table = d.session.table))
  overflow : ∀ q, asked? = some q → q.Overflows d deadline → a.status = 400

variable {d : Database} {t : Table}

/-- A write that is answered by its outcome. -/
theorem recorded_conclude {α : Type} {w : Write α} (hw : w.Atomic t) (hs : d.session.Honest)
    (ht : d.session.table.Represents t) {deadline : Option ℕ} {q : Telemetry.Call}
    (hq : q.metrics = w.metrics)
    (hrange : q.Overflows d deadline → ∃ x, w.Overflows d deadline x) {good : α → Response}
    {bad : StoreError → Response} (htells : Tells good bad) :
    Recorded d t deadline (some q)
      (conclude ((d.attempt deadline w.attempt).ending,
        .database (d.attempt deadline w.attempt).store) good bad) where
  outcome := by
    refine ⟨_, conclude_snd _ good bad, ?_⟩
    rcases hw.attempt_cases hs ht deadline with ⟨htable, hnot⟩ | ⟨a, u, hok, hmerges, hu⟩
    · exact .inr ⟨not_succeeds_of_returned htells hnot, htable⟩
    · exact .inl ⟨status_of_returned htells hok, q, w.records a, u, rfl, hq ▸ hmerges, hu⟩
  overflow := by
    rintro _ ⟨⟩ hover
    obtain ⟨x, hx⟩ := hrange hover
    exact status_of_overflow htells (hw.ending_of_overflows hx)

/-- **All that can become of an update** in front of a database, whatever the faults. -/
theorem Handled.recorded (hs : d.session.Honest) (ht : d.session.table.Represents t)
    {deadline : Option Deadline} {asked? : Option Telemetry.Call} {a : Answer}
    (h : Handled (.database d) deadline asked? a) :
    Recorded d t (deadline.map Deadline.moment) asked? a := by
  cases h with
  | refused hr => exact ⟨⟨d, rfl, .inr ⟨not_succeeds hr, rfl⟩⟩, by rintro _ ⟨⟩⟩
  | save hm htells => exact recorded_conclude (Write.single_atomic hm t) hs ht rfl id htells
  | @saveAll ms hms good bad htells =>
    by_cases hnil : ms = []
    · subst hnil
      refine ⟨⟨d, rfl, .inl ⟨htells.success [], _, [], t, rfl, .nil t, ht⟩⟩, ?_⟩
      rintro _ ⟨⟩ hover
      exact absurd hover (Telemetry.Call.not_overflows_nil d _)
    · rw [Store.saveAll, d.saveAll_of_ne_nil _ hnil]
      exact recorded_conclude (Write.batch_atomic hms t) hs ht rfl id htells

namespace Server

/-- **An update that runs out of time leaves no trace.** In front of a database whose relation was
left by this program, with any delays, any deadline and any faults, an update that is not answered
with success, because it failed or because the deadline passed, leaves the relation. A success has
merged the metrics of the request once. A result out of range in any attempt that is begun in time
is answered with status 400. -/
theorem updates_recorded {d : Database} (hr : d.session.table.Reached) (hs : d.session.Honest)
    (server : Server) (o : Occasion) {r : Request} (hupdate : r.isUpdate = true) :
    let s : Server := { server with store := .database d }
    ∃ t d', d.session.table.Represents t ∧
      (s.respond o r).server = { server with store := .database d' } ∧
      (¬ Succeeds (s.respond o r).response.status → d'.session.table = d.session.table) ∧
      (Succeeds (s.respond o r).response.status → (s.respond o r).response.status = 200 ∧
        ∃ ms rs u, r.metrics? = some ms ∧ t.Merges ms rs u ∧ d'.session.table.Represents u) ∧
      ∀ q, s.asks? r = some q → q.Overflows d (some (s.deadline o).moment) →
        (s.respond o r).response.status = 400 := by
  intro s
  obtain ⟨t, ht⟩ := hr.represents
  obtain ⟨a, hhandled, hstatus, hserver⟩ := s.respond_update o hupdate
  obtain ⟨⟨d', hstore, hcases⟩, hover⟩ := hhandled.recorded hs ht
  replace hstatus : (s.respond o r).response.status = a.status := hstatus
  rw [hstatus]
  refine ⟨t, d', ht, by rw [hserver, hstore], fun hnot => ?_, fun hsucceeds => ?_, hover⟩
  · rcases hcases with ⟨hsuccess, -⟩ | ⟨-, htable⟩
    · exact absurd (by rw [hsuccess]; decide) hnot
    · exact htable
  · rcases hcases with ⟨hsuccess, q, rs, u, hq, hmerges, hu⟩ | ⟨hnot, -⟩
    · exact ⟨hsuccess, q.metrics, rs, u, metrics?_of_asks? (post_of_isUpdate hupdate) hq, hmerges,
        hu⟩
    · exact absurd hsucceeds hnot

/-- The server of `Database.troubled` needs a third attempt, after four seconds. A client that
waits for one second only is told of a timeout, one that waits for ten has counted, and one whose
counter does not fit is told so. -/
theorem updates_recorded_troubled :
    let post (n : String) : Request := { method := .post, target := "/update/counter/polls/" ++ n }
    let s (timeout : ℕ) : Server := { store := .database Database.troubled, timeout }
    let late := (s 1).respond { trace := "" } (post "2")
    let counted := (s 10).respond { trace := "" } (post "2")
    let refused := (s 10).respond { trace := "" } (post "9223372036854775807")
    (late.response.status = 408 ∧ ∃ d', late.server = { s 1 with store := .database d' } ∧
      d'.session.table = Database.troubled.session.table) ∧
    (counted.response.status = 200 ∧ ∃ t rs u d', Database.troubled.session.table.Represents t ∧
      t.Merges [⟨"polls", .counter 2⟩] rs u ∧ counted.server = { s 10 with store := .database d' } ∧
      d'.session.table.Represents u) ∧
    refused.response.status = 400 := by
  intro post s late counted refused
  have hreached := Database.reached_troubled
  have hhonest := Database.honest_troubled
  refine ⟨?_, ?_, ?_⟩
  · have hlate : late.response.status = 408 := by decide +kernel
    obtain ⟨t, d', -, hserver, hfailed, -, -⟩ := updates_recorded hreached hhonest (s 1)
      { trace := "" } (r := post "2") (by decide +kernel)
    refine ⟨hlate, d', hserver, hfailed ?_⟩
    have hstatus : ¬ Succeeds late.response.status := by rw [hlate]; decide
    exact hstatus
  · have hcounted : counted.response.status = 200 := by decide +kernel
    obtain ⟨t, d', ht, hserver, -, hsuccess, -⟩ := updates_recorded hreached hhonest (s 10)
      { trace := "" } (r := post "2") (by decide +kernel)
    have hstatus : Succeeds counted.response.status := by rw [hcounted]; decide
    obtain ⟨-, ms, rs, u, hms, hmerges, hu⟩ := hsuccess hstatus
    have hgiven : (post "2").metrics? = some [⟨"polls", .counter 2⟩] := by decide +kernel
    cases hgiven.symm.trans hms
    exact ⟨hcounted, t, rs, u, d', ht, hmerges, hserver, hu⟩
  · obtain ⟨t, d', -, -, -, -, hover⟩ := updates_recorded hreached hhonest (s 10) { trace := "" }
      (r := post "9223372036854775807") (by decide +kernel)
    refine hover (.save ⟨"polls", .counter 9223372036854775807⟩) (by decide +kernel) ?_
    refine ⟨⟨"polls", .counter 9223372036854775807⟩, 4000, _,
      .next rfl rfl (by decide) (.next rfl rfl (by decide) .first), rfl, ?_⟩
    exact ⟨_, _, rfl, rfl⟩

end Server

end Http
end Telemetry
