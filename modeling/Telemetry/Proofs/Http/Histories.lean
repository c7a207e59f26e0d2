import Telemetry.Proofs.Http.Deadlines
import Telemetry.Proofs.Store.Restoring

/-!
# What a server lists and what it leaves on disk

A server is opened over any store, and then requests come in and its table is flushed, in any
order. Whatever the requests hold, only sound metrics are ever listed. If the store has a snapshot
file and the file was written at all, it holds the table as it was then, and whoever opens it next
gets that table back.

A request may be cut off by its deadline while it waits in front of the file. Its update may then be
in neither of table and file, in the table alone, or in both, although it is answered by a timeout.
What the disk is doing for it at that moment is taken to be done by then or never.

## Main definitions

* `Telemetry.Http.Event` — a request or a flush
* `Telemetry.Http.Server.afterAll` — any sequence of events
* `Telemetry.Http.Server.lastWritten` — the table that was written to the file last, and the events
  since then
* `Telemetry.Http.unfinished` — the updates that events may have left in the table alone

## Main results

* `Telemetry.Http.Server.sound_after`, `Telemetry.Http.Server.goes_after` — one event
* `Telemetry.Http.Server.stays_restorable` — any sequence of events
-/

namespace Telemetry

/-- Writes the table of a store that has a snapshot file. -/
def Store.flush : Store → Store
  | .persistent m => .persistent m.flush.2
  | b => b

namespace Http

/-- What happens to a server: a request comes in, or the timer of a table that is saved at intervals
is due. -/
inductive Event where
  | request (o : Occasion) (r : Request)
  | flush
  deriving DecidableEq

/-- What requests give whose time runs out in front of a file, request by request. -/
def unfinished (events : List Event) : List (List Metric) :=
  events.flatMap fun
    | .request o r => if o.cutOff.isSome then r.metrics?.toList else []
    | .flush => []

theorem unfinished_cons (e : Event) (events : List Event) :
    unfinished (e :: events) = unfinished [e] ++ unfinished events := by
  simp [unfinished]

namespace Server

/-- The server that an event leaves. -/
def after (s : Server) : Event → Server
  | .request o r => (s.respond o r).server
  | .flush => { s with store := s.store.flush }

/-- The server that events leave, one after the other. -/
def afterAll (s : Server) (events : List Event) : Server := events.foldl after s

/-- Does an event write the snapshot file? A flush does unless it fails. In front of a table that is
saved at once, so does an update that succeeds, also if it is cut off when the new version has been
moved over the file. -/
def writes (s : Server) (e : Event) : Bool :=
  match s.store, e with
  | .persistent m, .request o r =>
    decide (m.policy = .immediate) && (r.isUpdate &&
      ((s.respond { o with cutOff := none } r).response.isSuccess &&
        PersistentTable.publishesWithin o.cutOff))
  | .persistent m, .flush => m.flush.1.isOk
  | _, _ => false

/-- The table of a store that has a snapshot file. -/
def mirrored? (s : Server) : Option Table :=
  match s.store with
  | .persistent m => some m.table
  | _ => none

/-- The table that the last of some events that wrote the snapshot file put into it, and the events
behind that one. -/
def lastWritten (s : Server) : List Event → Option (Table × List Event)
  | [] => none
  | e :: events =>
    (lastWritten (s.after e) events).or
      (if s.writes e then (s.after e).mirrored?.map fun t => (t, events) else none)

end Server

/-! ### Updates -/

/-- An update leaves a sound store. -/
theorem Handled.sound {b : Store} (hb : b.Sound) {deadline : Option Deadline}
    {asked? : Option Telemetry.Call} {a : Answer} (h : Handled b deadline asked? a) :
    a.2.Sound := by
  cases h with
  | refused => exact hb
  | save hm =>
    rw [conclude_snd]
    cases b with
    | memory t => exact Table.Sound.apply hb hm
    | persistent m =>
      exact (m.goes_writeFor _ (Table.Sound.apply · hm)
        fun r _ h => ⟨[r], Table.apply_eq_ok_iff.mp h⟩).sound hb
    | database d => trivial
  | saveAll hms =>
    rw [conclude_snd]
    cases b with
    | memory t => exact Table.Sound.applyAll hb hms
    | persistent m =>
      exact (m.goes_writeFor _ (Table.Sound.applyAll · hms)
        fun rs _ h => ⟨rs, Table.applyAll_eq_ok_iff.mp h⟩).sound hb
    | database d => trivial

/-- **What an update makes of a table with a file**: it has put the table into the file just if the
table is saved at once, the update would succeed without a deadline, and it has come as far as
moving the new version over the file. -/
theorem Handled.goes {m : PersistentTable} {deadline : Option Deadline}
    {asked? : Option Telemetry.Call} {a : Answer}
    (h : Handled (.persistent m) deadline asked? a) :
    ∃ n, a.2 = .persistent n ∧
      m.Goes (decide (m.policy = .immediate) &&
          ((asked?.any fun q => ((Store.persistent m).respond none q).1.isOk) &&
            PersistentTable.publishesWithin (deadline.bind Deadline.steps)))
        (if (deadline.bind Deadline.steps).isSome then (asked?.map Telemetry.Call.metrics).toList
          else []) n := by
  cases h with
  | refused hr =>
    refine ⟨m, rfl, ?_⟩
    rw [Option.any_none, Bool.false_and, Bool.and_false]
    exact m.goes_refl _
  | save hx htells =>
    exact ⟨_, conclude_snd _ _ _, m.goes_writeFor _ (Table.Sound.apply · hx)
      fun r _ h => ⟨[r], Table.apply_eq_ok_iff.mp h⟩⟩
  | saveAll hxs htells =>
    exact ⟨_, conclude_snd _ _ _, m.goes_writeFor _ (Table.Sound.applyAll · hxs)
      fun rs _ h => ⟨rs, Table.applyAll_eq_ok_iff.mp h⟩⟩

/-! ### One event -/

/-- Whatever is asked of a database, it stays a database. -/
theorem answer_database (d : Database) (askable : Bool) (deadline : Option Deadline)
    (trace : String) (body : Bytes) (c : Call) :
    ∃ d', (answer (.database d) askable deadline trace body c).2 = .database d' := by
  have hdocument : ∀ use : Bytes → Answer, (∃ d', (use body).2 = .database d') →
      ∃ d', (withDocument body (.database d) use).2 = .database d' := by
    intro use huse
    rw [withDocument]
    split
    · exact huse
    · exact ⟨d, rfl⟩
  cases c with
  | index => exact ⟨_, conclude_snd _ _ _⟩
  | ping =>
    cases askable with
    | false => exact ⟨d, rfl⟩
    | true =>
      rw [answer, ping]
      rcases d.ping with ⟨_ | _, d'⟩ <;> exact ⟨d', rfl⟩
  | updateOne =>
    refine hdocument _ ?_
    rw [updateOne]
    split
    · exact ⟨d, rfl⟩
    · exact ⟨_, conclude_snd _ _ _⟩
  | updateMany =>
    refine hdocument _ ?_
    rw [updateMany]
    split
    · exact ⟨d, rfl⟩
    · exact ⟨_, conclude_snd _ _ _⟩
  | value =>
    refine hdocument _ ?_
    rw [value]
    split
    · exact ⟨d, rfl⟩
    · exact ⟨_, conclude_snd _ _ _⟩
  | updateByPath type id raw =>
    rw [answer, updateByPath]
    split
    · exact ⟨d, rfl⟩
    · split
      · exact ⟨d, rfl⟩
      · exact ⟨_, conclude_snd _ _ _⟩
  | valueByPath type id =>
    rw [answer, valueByPath]
    split
    · exact ⟨d, rfl⟩
    · exact ⟨_, conclude_snd _ _ _⟩

namespace Server

variable {s : Server}

theorem respond_database {d : Database} (hs : s.store = .database d) (o : Occasion)
    (r : Request) : ∃ d', (s.respond o r).server.store = .database d' := by
  cases hpassed : s.passOn r with
  | error status => exact ⟨d, by rw [(respond_refused o hpassed).2, hs]⟩
  | ok body =>
    rw [(respond_passedOn o hpassed).2, handling, hs]
    rcases dispatch_cases (.database d) s.askable (some (s.deadline o)) o.trace r body with
      ⟨response, -, ha, -⟩ | ⟨c, -, ha, -⟩
    · exact ⟨d, by rw [ha]⟩
    · rw [ha]
      exact answer_database d s.askable (some (s.deadline o)) o.trace body c

/-- **An event leaves a sound store.** -/
theorem sound_after (hs : s.store.Sound) (e : Event) : (s.after e).store.Sound := by
  cases e with
  | flush =>
    rw [after]
    cases hstore : s.store <;> rwa [hstore] at hs
  | request o r =>
    rw [after]
    cases hr : r.isUpdate with
    | true =>
      obtain ⟨a, hhandled, -, hserver⟩ := s.respond_update o hr
      rw [hserver]
      exact hhandled.sound hs
    | false =>
      by_cases hlocal : ∀ d, s.store ≠ .database d
      · rwa [s.respond_read o hlocal hr]
      · obtain ⟨d, hd⟩ := not_forall_not.mp hlocal
        obtain ⟨d', hd'⟩ := respond_database hd o r
        rw [hd']
        trivial

/-- An update in front of a table with a file succeeds without a deadline if the store does. -/
theorem isSuccess_respond {m : PersistentTable} (hs : s.store = .persistent m) (o : Occasion)
    {r : Request} (hr : r.isUpdate = true) :
    (s.respond { o with cutOff := none } r).response.isSuccess
      = (s.asks? r).any fun q => ((Store.persistent m).respond none q).1.isOk := by
  obtain ⟨a, hhandled, hstatus, -⟩ := s.respond_update { o with cutOff := none } hr
  rw [hs] at hhandled
  have hnever : (Store.persistent m).respond (some (s.deadline { o with cutOff := none }))
      = (Store.persistent m).respond none := by
    funext q
    cases q <;> rfl
  have hsucceeds := hhandled.succeeds_iff
  rw [hnever] at hsucceeds
  rw [Bool.eq_iff_iff, isSuccess_iff_succeeds, hstatus]
  exact hsucceeds

/-- **What an event makes of a table with a file.** -/
theorem goes_after {m : PersistentTable} (hs : s.store = .persistent m) (e : Event) :
    ∃ n, s.after e = { s with store := .persistent n } ∧
      m.Goes (s.writes e) (unfinished [e]) n := by
  cases e with
  | flush => exact ⟨m.flush.2, by simp only [after, hs, Store.flush],
      by simpa only [writes, hs] using (m.goes_refl _).flush⟩
  | request o r =>
    simp only [writes, hs]
    cases hr : r.isUpdate with
    | false =>
      have hlocal : ∀ d, s.store ≠ .database d := by simp [hs]
      refine ⟨m, ?_, by simpa using m.goes_refl _⟩
      rw [after, s.respond_read o hlocal hr, ← hs]
    | true =>
      obtain ⟨a, hhandled, -, hserver⟩ := s.respond_update o hr
      rw [hs] at hhandled
      obtain ⟨n, hn, hgoes⟩ := hhandled.goes
      refine ⟨n, by rw [after, hserver, hn], ?_⟩
      rw [Bool.true_and, isSuccess_respond hs o hr]
      refine hgoes.mono ?_
      rw [unfinished, List.flatMap_singleton]
      change (if o.cutOff.isSome then _ else []).Sublist (if o.cutOff.isSome then _ else [])
      split
      · cases hasks : s.asks? r with
        | none => exact List.nil_sublist _
        | some q =>
          rw [metrics?_of_asks? (post_of_isUpdate hr) hasks]
          exact List.Sublist.refl _
      · exact List.Sublist.refl _

/-! ### Any sequence of events -/

theorem sound_afterAll (hs : s.store.Sound) (events : List Event) :
    (s.afterAll events).store.Sound := by
  induction events generalizing s with
  | nil => exact hs
  | cons e events ih => exact ih (sound_after hs e)

/-- What events make of a table with a file. -/
theorem goes_afterAll {m : PersistentTable} (hs : s.store = .persistent m) (hm : m.table.Sound)
    (events : List Event) :
    ∃ n, s.afterAll events = { s with store := .persistent n } ∧ n.policy = m.policy ∧
      (∀ t since, s.lastWritten events = some (t, since) →
        t.Sound ∧ n.Holds t ∧ (since = [] → n.table = t) ∧
          (m.policy = .immediate → t.GrowsBy (unfinished since) n.table)) ∧
      (s.lastWritten events = none → (∀ t, m.Holds t → n.Holds t) ∧
        (m.policy = .immediate → m.table.GrowsBy (unfinished events) n.table)) := by
  induction events generalizing s m with
  | nil =>
    exact ⟨m, by rw [← hs]; rfl, rfl, nofun,
      fun _ => ⟨fun _ => id, fun _ => m.table.growsBy_refl _⟩⟩
  | cons e events ih =>
    obtain ⟨n, hafter, hgoes⟩ := goes_after hs e
    obtain ⟨n', hall, hpolicy, hwritten, hkept⟩ := ih (s := s.after e) (m := n) (by rw [hafter])
      (hgoes.sound hm)
    rw [hgoes.policy] at hpolicy hwritten hkept
    have hmirrored : (s.after e).mirrored? = some n.table := by rw [hafter]; rfl
    refine ⟨n', ?_, hpolicy, fun t since ht => ?_, fun hnone => ?_⟩
    · rw [afterAll, List.foldl_cons]
      exact hall.trans (by rw [hafter])
    · rw [lastWritten, hmirrored] at ht
      cases hlater : (s.after e).lastWritten events with
      | some u =>
        rw [hlater, Option.some_or] at ht
        cases ht
        exact hwritten _ _ hlater
      | none =>
        -- this event is the last one that wrote, and those behind it have kept the file
        rw [hlater, Option.none_or] at ht
        split_ifs at ht with hwrites
        cases ht
        obtain ⟨hfile, htable⟩ := hkept hlater
        refine ⟨hgoes.sound hm, hfile _ (hgoes.fresh hwrites), ?_, htable⟩
        rintro rfl
        rw [afterAll, List.foldl_nil, hafter] at hall
        cases hall
        rfl
    · rw [lastWritten, Option.or_eq_none_iff] at hnone
      obtain ⟨hlater, hhere⟩ := hnone
      have hwrites : s.writes e = false := by
        rw [hmirrored] at hhere
        simpa using hhere
      obtain ⟨hfile, htable⟩ := hkept hlater
      refine ⟨fun t hold => hfile t (hgoes.kept hwrites t hold), fun himmediate => ?_⟩
      rw [unfinished_cons]
      exact (hgoes.table hwrites himmediate).trans (htable himmediate)

/-- **Only sound metrics are listed, and the snapshot file can always be restored.** A server is
opened over any store, empty or restored, with any disk, and answers any requests while its table
is flushed at any moments, whatever fails, and wherever requests are cut off by their deadlines.
Every metric that is listed then has a name and a finite value, and its document is read as a metric
with its key. If the snapshot file was written, it is read as the table that was written last, and a
new table that is restored from it has the same keys and the same counters as that one.

The table that was written last is the current one if nothing has happened since, or if the table is
saved at once and no request was cut off since. Otherwise a table that is saved at once has grown
since then by the updates of some of the requests that were cut off, each of them whole. -/
theorem stays_restorable {settings : StoreSettings} {disk : Disk}
    {connect : String → Except DbFailure Session} {b : Store}
    (hopen : Store.openWith settings disk connect = .ok b) (server : Server)
    (events : List Event) :
    let s : Server := { server with store := b }
    let left := (s.afterAll events).store
    (∀ deadline ms, (left.getAll deadline).1 = .returned (.ok ms) → ∀ m ∈ ms, m.id ≠ "" ∧
      m.value.isFinite = true ∧ ∃ m', Wire.decode (Wire.encode m) = .ok m' ∧ m'.key = m.key) ∧
    ∀ opened, b = .persistent opened → ∃ m, left = .persistent m ∧ m.policy = opened.policy ∧
      ∀ t since, s.lastWritten events = some (t, since) →
        (since = [] ∨ m.policy = .immediate ∧ unfinished since = [] → m.table = t) ∧
        (m.policy = .immediate → t.GrowsBy (unfinished since) m.table) ∧
        (m.file.disk.next.1 = none →
          (∃ ms, m.file.load.1 = .ok ms ∧ List.Forall₂ Metric.ReadsAs t.entries ms) ∧
          ∀ policy, ∃ count n, (PersistentTable.create m.file policy).restore = (.ok count, n) ∧
            t.Resembles n.table) := by
  intro s left
  have hsound : s.store.Sound := Store.sound_of_openWith hopen
  refine ⟨fun deadline ms hms m hm => ?_, fun opened hopened => ?_⟩
  · have hm := (sound_afterAll hsound events).isSound_of_getAll hms m hm
    obtain ⟨hid, hfinite⟩ := Metric.isSound_iff.mp hm
    obtain ⟨m', hread⟩ := Metric.exists_readsAs hm
    exact ⟨hid, hfinite, m', Wire.decode_encode hread, hread.key_eq⟩
  · subst hopened
    obtain ⟨m, hleft, hpolicy, hwritten, -⟩ := goes_afterAll (s := s) rfl hsound events
    refine ⟨m, congrArg Server.store hleft, hpolicy, fun t since ht => ?_⟩
    obtain ⟨hsoundt, hold, hlast, hgrows⟩ := hwritten t since ht
    rw [← hpolicy] at hgrows
    refine ⟨?_, hgrows, fun hnext => ⟨hold.load hsoundt hnext, hold.restore hsoundt hnext⟩⟩
    rintro (hnothing | ⟨himmediate, hwhole⟩)
    · exact hlast hnothing
    · have hsame := hgrows himmediate
      rw [hwhole] at hsame
      exact hsame.eq_of_nil

/-- A server that is restored from a file with one counter. It takes the largest number as a level
and some counters, refuses a level that is none and a metric without a name, and loses a race for
its file in between. Three of its requests are cut off. What the first leaves in the table is
written along with the next update, the second has written the file already, and what the third
leaves is not in the file in the end. -/
theorem stays_restorable_mirrored :
    let stored : Metric := ⟨"polls", .counter 5⟩
    let settings : StoreSettings := { filePath := some "metrics.json", restore := true }
    let disk : Disk :=
      { entries := [(["metrics.json"], .file (Snapshot.format [stored]))]
        mishaps := [none, none, none, some (.torn 3)] }
    let opened : PersistentTable := ⟨.ofList [stored], ⟨["metrics.json"], { disk with
      mishaps := [none, none, some (.torn 3)] }⟩, .immediate⟩
    let post (target : String) (body : Bytes := []) (cutOff : Option ℕ := none) : Event :=
      .request { trace := "", cutOff } { method := .post, target, body }
    let last := post "/update/counter/polls/8" [] (some 2)
    let events := [post "/update/gauge/load/1.7976931348623157e308",
      post "/update/counter/polls/1", post "/update/gauge/load/NaN",
      post "/updates/" (Bytes.ofText "[[\"\",\"counter\",1]]"),
      post "/update/counter/polls/2" [] (some 1), post "/update/counter/sent/1",
      post "/update/counter/polls/4" [] (some 3), last]
    let s : Server := { store := .persistent opened }
    Store.openWith settings disk (fun _ => .error .other) = .ok (.persistent opened) ∧
    ∃ m t, (s.afterAll events).store = .persistent m ∧ s.lastWritten events = some (t, [last]) ∧
      t.entries = [⟨"load", .gauge ⟨0x7FEFFFFFFFFFFFFF⟩⟩, ⟨"polls", .counter 11⟩,
        ⟨"sent", .counter 1⟩] ∧
      t.GrowsBy [[⟨"polls", .counter 8⟩]] m.table ∧
      m.get? ⟨"polls", .counter⟩ = some ⟨"polls", .counter 19⟩ ∧
      ∃ count n, (PersistentTable.create m.file .immediate).restore = (.ok count, n) ∧
        t.Resembles n.table := by
  intro stored settings disk opened post last events s
  have hopen : Store.openWith settings disk (fun _ => .error .other) = .ok (.persistent opened) :=
    rfl
  let t : Table := .ofList [⟨"load", .gauge ⟨0x7FEFFFFFFFFFFFFF⟩⟩, ⟨"polls", .counter 11⟩,
    ⟨"sent", .counter 1⟩]
  have hlast : s.lastWritten events = some (t, [last]) := by decide +kernel
  obtain ⟨-, hfile⟩ := stays_restorable hopen { store := .memory .empty } events
  obtain ⟨m, hleft, hpolicy, hwritten⟩ := hfile opened rfl
  obtain ⟨-, hgrows, hrestore⟩ := hwritten t [last] hlast
  have hseen : (match (s.afterAll events).store with
      | .persistent m => (m.file.disk.next.1, m.get? ⟨"polls", .counter⟩)
      | _ => (none, none)) = (none, some ⟨"polls", .counter 19⟩) := by
    decide +kernel
  replace hleft : (s.afterAll events).store = .persistent m := hleft
  rw [hleft] at hseen
  obtain ⟨hnext, hpolls⟩ := Prod.mk.inj hseen
  have hunfinished : unfinished [last] = [[⟨"polls", .counter 8⟩]] := by decide +kernel
  have hgrown := hgrows hpolicy
  rw [hunfinished] at hgrown
  exact ⟨hopen, m, t, hleft, hlast, rfl, hgrown, hpolls, (hrestore hnext).2 .immediate⟩

end Server

end Http
end Telemetry
