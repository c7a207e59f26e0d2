import Telemetry.Proofs.Store.Upkeep
import Mathlib.Data.List.Infix
import Mathlib.Data.List.Induction

/-!
# The file of a table that is saved at intervals

At any moment the file is what it was in the beginning, or it holds what the last flush that
succeeded had taken down. A flush that fails leaves table and file, a save leaves the file, and
when the flusher has flushed for the last time and the table is not written afterwards, the file
holds all that is in the table.

A flush takes the metrics down when it has come to its turn. Since flushes and restores take turns,
no other of them writes the file until it is over, though saves go on changing the table.

## Main definitions

* `Telemetry.Upkeep.Stage` — how far a task is with its chore
* `Telemetry.Upkeep.Sound` — the invariant
* `Telemetry.Upkeep.Taken` — what a flush has taken down in a course of events

## Main results

* `Telemetry.Upkeep.Sound.does` — one event
* `Telemetry.Upkeep.sound_run` — any course of events
* `Telemetry.Upkeep.mirrored_at_intervals` — what the file holds, at any moment and in the end
-/

namespace Telemetry.Upkeep

open PersistentTable

/-! ### One step of a task -/

/-- How far a task is with its chore, in view of the file and of what flushes can have taken
down. -/
inductive Stage (taken : ℕ → List Metric → Prop) (file : SnapshotFile) (i : ℕ) :
    Chore → Procedure PersistentTable (Except StoreError Unit) → Prop where
  | flushing : Stage taken file i .flush flushing
  | drafting {ms} (hms : taken i ms) : Stage taken file i .flush (drafting ms)
  | publishing {ms} (hms : taken i ms) (hnew : file.newBytes = some (Snapshot.format ms)) :
      Stage taken file i .flush publishing
  | written {ms} (hms : taken i ms) : Stage taken file i .flush (.done (.ok ()))
  | restoring : Stage taken file i .restore restoring
  | putting (ms) : Stage taken file i .restore (putting ms)
  | restored : Stage taken file i .restore (.done (.ok ()))
  | failed (chore e) : Stage taken file i chore (.done (.error e))

/-- Has a task that stands here put metrics into the file? -/
def isWritten (chore : Chore) : Procedure PersistentTable (Except StoreError Unit) → Bool
  | .done (.ok ()) => chore = .flush
  | _ => false

/-- What one step of a chore does. -/
structure Advances (taken : ℕ → List Metric → Prop) (i : ℕ) (chore : Chore)
    (rest rest' : Procedure PersistentTable (Except StoreError Unit))
    (m m' : PersistentTable) : Prop where
  stage : Stage taken m'.file i chore rest'
  policy : m'.policy = m.policy
  table : m'.table = m.table ∨ chore = .restore ∧ ∃ ms, rest = putting ms
  file : isWritten chore rest' = false ∧ m'.bytes = m.bytes ∨
    isWritten chore rest' = true ∧ ∃ ms, taken i ms ∧ m'.bytes = some (Snapshot.format ms)

theorem Stage.advances {taken : ℕ → List Metric → Prop} {i : ℕ} {chore : Chore}
    {rest : Procedure PersistentTable (Except StoreError Unit)} {m : PersistentTable}
    {act : PersistentTable → PersistentTable}
    {next : PersistentTable → Procedure PersistentTable (Except StoreError Unit)}
    (h : Stage taken m.file i chore rest) (hrest : rest = .step act next)
    (htaken : chore = .flush → rest = PersistentTable.flushing → taken i m.getAll) :
    Advances taken i chore rest (next m) m (act m) := by
  cases h with
  | flushing =>
    cases hrest
    exact ⟨.drafting (htaken rfl rfl), rfl, .inl rfl, .inl ⟨rfl, rfl⟩⟩
  | @drafting ms hms =>
    cases hrest
    dsimp only
    obtain ⟨-, hbytes, ⟨hok, hnew⟩ | ⟨f, hfail⟩⟩ := m.file.draft_cases ms
    · rw [show (draftOf ms m).1 = .ok () from hok]
      exact ⟨.publishing hms hnew, rfl, .inl rfl, .inl ⟨rfl, hbytes⟩⟩
    · rw [show (draftOf ms m).1 = .error (.disk f) from hfail]
      exact ⟨.failed _ _, rfl, .inl rfl, .inl ⟨rfl, hbytes⟩⟩
  | @publishing ms hms hnew =>
    cases hrest
    dsimp only
    obtain ⟨-, ⟨hok, hbytes⟩ | ⟨f, hfail, hbytes⟩⟩ := m.file.publish_cases hnew
    · rw [show m.publish.1 = .ok () from hok]
      exact ⟨.written hms, rfl, .inl rfl, .inr ⟨rfl, ms, hms, hbytes⟩⟩
    · rw [show m.publish.1 = .error (.disk f) from hfail]
      exact ⟨.failed _ _, rfl, .inl rfl, .inl ⟨rfl, hbytes⟩⟩
  | written hms => cases hrest
  | restoring =>
    cases hrest
    dsimp only
    have hbytes : m.loadFile.2.bytes = m.bytes := m.file.bytes_load
    rcases hload : m.loadFile.1 with e | ms
    · exact ⟨.failed _ _, rfl, .inl rfl, .inl ⟨rfl, hbytes⟩⟩
    · exact ⟨.putting ms, rfl, .inl rfl, .inl ⟨rfl, hbytes⟩⟩
  | putting ms =>
    cases hrest
    exact ⟨.restored, rfl, .inr ⟨rfl, ms, rfl⟩, .inl ⟨rfl, rfl⟩⟩
  | restored => cases hrest
  | failed chore e => cases hrest

/-! ### The invariant -/

section Sound

variable {taken taken' : ℕ → List Metric → Prop} {b : Option Bytes} {u : Upkeep} {i : ℕ}
  {chore : Chore} {rest : Procedure PersistentTable (Except StoreError Unit)}

/-- The file is as it was, or it holds what the last flush that has succeeded had taken down. -/
def Mirrors (taken : ℕ → List Metric → Prop) (b : Option Bytes) (u : Upkeep) : Prop :=
  match u.successes.getLast? with
  | none => u.state.bytes = b
  | some i => ∃ ms, taken i ms ∧ u.state.bytes = some (Snapshot.format ms)

/-- What is known at any moment of a table that is saved at intervals, if flushes have taken down
no other metrics than those that are said and the file held what is said in the beginning. -/
structure Sound (taken : ℕ → List Metric → Prop) (b : Option Bytes) (u : Upkeep) : Prop where
  orderly : u.shared.Orderly
  length : u.chores.length = u.shared.tasks.length
  policy : ∃ n, u.state.policy = .every n
  waiting : ∀ {i : ℕ} {p : Procedure PersistentTable (Except StoreError Unit)},
    u.shared.tasks[i]? = some (.waiting p) → ∃ chore, u.chores[i]? = some chore ∧ p = chore.steps
  active : ∀ {i : ℕ} {rest : Procedure PersistentTable (Except StoreError Unit)},
    u.shared.tasks[i]? = some (.active rest) →
      ∃ chore, u.chores[i]? = some chore ∧ Stage taken u.state.file i chore rest
  known : ∀ {i}, u.succeeded i → ∃ ms, taken i ms
  file : u.Mirrors taken b

theorem succeeded_congr {u' : Upkeep} (hchores : u'.chores[i]? = u.chores[i]?)
    (htasks : u'.shared.tasks[i]? = u.shared.tasks[i]?) : u'.succeeded i = u.succeeded i := by
  rw [succeeded, succeeded, hchores, htasks]

/-- What a task does says nothing about the others. -/
theorem succeeded_other {t : Task PersistentTable (Except StoreError Unit)}
    (hi : u.shared.tasks[i]? = some t) {j : ℕ} (hij : i ≠ j)
    (t' : Task PersistentTable (Except StoreError Unit)) (m : PersistentTable) (turns : List ℕ) :
    succeeded { u with shared := ⟨m, (u.shared.place i t').tasks, turns⟩ } j = u.succeeded j :=
  succeeded_congr rfl ((Shared.getElem?_place hi t' j).trans (if_neg hij))

theorem succeeded_active (hchore : u.chores[i]? = some chore)
    (hi : u.shared.tasks[i]? = some (.active rest)) : u.succeeded i = isWritten chore rest := by
  rw [succeeded, hchore, hi]
  rcases rest with (e | ⟨⟨⟩⟩) | _ <;> simp [isWritten]

theorem Mirrors.congr {u' : Upkeep} (h : u.Mirrors taken b) (hs : u'.successes = u.successes)
    (hb : u'.state.bytes = u.state.bytes) : u'.Mirrors taken b := by
  rw [Mirrors, hs, hb]
  exact h

theorem Stage.mono {file : SnapshotFile} (h : Stage taken file i chore rest)
    (hle : ∀ i ms, taken i ms → taken' i ms) : Stage taken' file i chore rest := by
  cases h with
  | flushing => exact .flushing
  | drafting hms => exact .drafting (hle _ _ hms)
  | publishing hms hnew => exact .publishing (hle _ _ hms) hnew
  | written hms => exact .written (hle _ _ hms)
  | restoring => exact .restoring
  | putting ms => exact .putting ms
  | restored => exact .restored
  | failed chore e => exact .failed chore e

/-- What a step does, whatever flushes take down. -/
theorem Stage.next {m : PersistentTable} {act : PersistentTable → PersistentTable}
    {next : PersistentTable → Procedure PersistentTable (Except StoreError Unit)}
    (h : Stage taken m.file i chore (.step act next)) :
    Advances (fun _ _ => True) i chore (.step act next) (next m) m (act m) :=
  (h.mono fun _ _ _ => trivial).advances rfl fun _ _ => trivial

theorem Sound.mono (h : u.Sound taken b) (hle : ∀ i ms, taken i ms → taken' i ms) :
    u.Sound taken' b where
  orderly := h.orderly
  length := h.length
  policy := h.policy
  waiting := h.waiting
  active hi := by
    obtain ⟨chore, hchore, hstage⟩ := h.active hi
    exact ⟨chore, hchore, hstage.mono hle⟩
  known hi := by
    obtain ⟨ms, hms⟩ := h.known hi
    exact ⟨ms, hle _ _ hms⟩
  file := by
    have hfile := h.file
    rw [Mirrors] at hfile ⊢
    split at hfile
    · exact hfile
    · obtain ⟨ms, hms, hbytes⟩ := hfile
      exact ⟨ms, hle _ _ hms, hbytes⟩

theorem sound_start (m : PersistentTable) {n : ℕ} (hm : m.policy = .every n) :
    (start m).Sound taken m.bytes where
  orderly := Shared.orderly_create m []
  length := rfl
  policy := ⟨n, hm⟩
  waiting hi := by simp [start, Shared.create] at hi
  active hi := by simp [start, Shared.create] at hi
  known hi := by simp [start, succeeded] at hi
  file := rfl

/-- Metrics are saved in the table alone. -/
theorem Sound.perform_eq (h : u.Sound taken b) (call : Saving) :
    (u.state.perform call).2 = { u.state with table := (u.state.perform call).2.table } := by
  obtain ⟨n, hpolicy⟩ := h.policy
  cases call with
  | one x => simp [perform, PersistentTable.save, write, hpolicy, begin]
  | batch xs => simp [perform, saveAll, write, hpolicy, begin]

/-- Another table changes nothing of what is known. -/
theorem Sound.withTable (h : u.Sound taken b) (t : Table) :
    Sound taken b { u with shared := { u.shared with state := { u.state with table := t } } } :=
  ⟨h.orderly.outside _, h.length, h.policy, h.waiting, h.active, h.known, h.file⟩

theorem Sound.withFlusher (h : u.Sound taken b) (f : Flusher) :
    Sound taken b { u with flusher := f } :=
  ⟨h.orderly, h.length, h.policy, h.waiting, h.active, h.known, h.file⟩

theorem Sound.succeeded_ask (h : u.Sound taken b) (chore : Chore) (i : ℕ) :
    (u.ask chore).succeeded i = u.succeeded i := by
  by_cases hlt : i < u.shared.tasks.length
  · exact succeeded_congr (List.getElem?_append_left (hlt.trans_eq h.length.symm))
      (List.getElem?_append_left hlt)
  · have hold : u.shared.tasks[i]? = none := List.getElem?_eq_none (Nat.le_of_not_lt hlt)
    rw [succeeded, succeeded, hold]
    rcases hi : (u.ask chore).shared.tasks[i]? with _ | t
    · simp
    · obtain ⟨-, rfl⟩ | hi := Shared.eq_or_of_join hi
      · simp
      · cases hold.symm.trans hi

theorem Sound.ask (h : u.Sound taken b) (chore : Chore) : (u.ask chore).Sound taken b := by
  have hchores : ∀ {i : ℕ} {c : Chore}, u.chores[i]? = some c → (u.ask chore).chores[i]? = some c :=
    fun hi => (List.getElem?_append_left (List.getElem?_eq_some_iff.mp hi).1).trans hi
  have hsuccesses : (u.ask chore).successes = u.successes :=
    List.filter_congr fun i _ => h.succeeded_ask chore i
  refine ⟨h.orderly.join _, ?_, h.policy, fun {i p} hi => ?_, fun {i rest} hi => ?_, fun hi => ?_,
    h.file.congr hsuccesses rfl⟩
  · show (u.chores ++ [chore]).length = (u.shared.tasks ++ [_]).length
    rw [List.length_append, List.length_append, h.length]
    rfl
  · rcases Shared.eq_or_of_join hi with ⟨rfl, heq⟩ | hi
    · cases heq
      refine ⟨chore, ?_, rfl⟩
      rw [← h.length]
      exact List.getElem?_concat_length ..
    · obtain ⟨c, hc, hp⟩ := h.waiting hi
      exact ⟨c, hchores hc, hp⟩
  · rcases Shared.eq_or_of_join hi with ⟨-, ⟨⟩⟩ | hi
    obtain ⟨c, hc, hstage⟩ := h.active hi
    exact ⟨c, hchores hc, hstage⟩
  · rw [h.succeeded_ask chore] at hi
    exact h.known hi

theorem stage_steps (taken : ℕ → List Metric → Prop) (file : SnapshotFile) (i : ℕ) (chore : Chore) :
    Stage taken file i chore chore.steps := by
  cases chore with
  | flush => exact .flushing
  | restore => exact .restoring

/-- A flush that comes to its turn has not put anything into the file yet. -/
theorem Sound.succeeded_enter (h : u.Sound taken b)
    {p : Procedure PersistentTable (Except StoreError Unit)}
    (hi : u.shared.tasks[i]? = some (.waiting p)) (turns : List ℕ) (j : ℕ) :
    succeeded { u with shared := { u.shared.place i (.active p) with turns } } j
      = u.succeeded j := by
  by_cases hij : i = j
  · subst hij
    obtain ⟨chore, hchore, rfl⟩ := h.waiting hi
    rw [succeeded_active
      (u := { u with shared := { u.shared.place i (.active chore.steps) with turns } })
      hchore (Shared.getElem?_place_self hi _), succeeded, hi]
    cases chore <;> simp [isWritten, Chore.steps, PersistentTable.flushing,
      PersistentTable.restoring, Procedure.call]
  · exact succeeded_other hi hij _ _ _

theorem Sound.enter (h : u.Sound taken b) {p : Procedure PersistentTable (Except StoreError Unit)}
    (hi : u.shared.tasks[i]? = some (.waiting p)) (hfree : u.shared.isFree) :
    Sound taken b { u with
      shared := { u.shared.place i (.active p) with turns := u.shared.turns ++ [i] } } := by
  have hsucceeded := h.succeeded_enter hi (u.shared.turns ++ [i])
  set u' : Upkeep :=
    { u with shared := { u.shared.place i (.active p) with turns := u.shared.turns ++ [i] } }
  have hnot : ¬ u'.succeeded i := by
    rw [hsucceeded, succeeded, hi]
    simp
  have hsuccesses : u'.successes = u.successes := by
    show (u.shared.turns ++ [i]).filter u'.succeeded = _
    rw [List.filter_append, List.filter_cons_of_neg hnot, List.filter_nil, List.append_nil]
    exact List.filter_congr fun j _ => hsucceeded j
  refine ⟨h.orderly.enter hi hfree, ?_, h.policy, fun {j q} hj => ?_, fun {j rest} hj => ?_,
    fun {j} hj => ?_, h.file.congr hsuccesses rfl⟩
  · exact h.length.trans List.length_set.symm
  · obtain ⟨-, ⟨⟩⟩ | ⟨-, hj⟩ := Shared.eq_or_of_place hi hj
    exact h.waiting hj
  · obtain ⟨rfl, ⟨⟩⟩ | ⟨-, hj⟩ := Shared.eq_or_of_place hi hj
    · obtain ⟨chore, hchore, rfl⟩ := h.waiting hi
      exact ⟨chore, hchore, stage_steps _ _ _ _⟩
    · exact h.active hj
  · exact h.known (hsucceeded j ▸ hj)

/-- A task that has the turn does a step, or it is over. -/
theorem Sound.place (h : u.Sound taken b) (hi : u.shared.tasks[i]? = some (.active rest))
    (hchore : u.chores[i]? = some chore) (t : Task PersistentTable (Except StoreError Unit))
    (m : PersistentTable) (hpolicy : m.policy = u.state.policy)
    (ht : (∃ rest', t = .active rest' ∧ Stage taken m.file i chore rest') ∨ ∃ r, t = .finished r) :
    let u' : Upkeep := { u with shared := { u.shared.place i t with state := m } }
    (u'.succeeded i = u.succeeded i ∧ m.bytes = u.state.bytes ∨
      u.succeeded i = false ∧ u'.succeeded i = true ∧
        ∃ ms, taken i ms ∧ m.bytes = some (Snapshot.format ms)) →
    u'.Sound taken b := by
  intro u' hfile
  have hothers : ∀ j, i ≠ j → u'.succeeded j = u.succeeded j := fun j hij =>
    succeeded_other hi hij _ _ _
  obtain ⟨before, hbefore⟩ := h.orderly.active hi
  have horderly : u'.shared.Orderly := by
    refine h.orderly.place hi t ?_ (fun _ _ => ?_) (fun _ _ => ⟨rest, rfl⟩) m
    · rintro p rfl
      rcases ht with ⟨_, ⟨⟩, -⟩ | ⟨_, ⟨⟩⟩
    · rw [hbefore]
      exact List.mem_append_right _ List.mem_cons_self
  refine ⟨horderly, ?_, ?_, fun {j q} hj => ?_, fun {j rest} hj => ?_, fun {j} hj => ?_, ?_⟩
  · exact h.length.trans List.length_set.symm
  · obtain ⟨n, hn⟩ := h.policy
    exact ⟨n, hpolicy.trans hn⟩
  · obtain ⟨-, rfl⟩ | ⟨-, hj⟩ := Shared.eq_or_of_place hi hj
    · rcases ht with ⟨_, ⟨⟩, -⟩ | ⟨_, ⟨⟩⟩
    · exact h.waiting hj
  · obtain ⟨rfl, rfl⟩ | ⟨hij, hj⟩ := Shared.eq_or_of_place hi hj
    · rcases ht with ⟨_, ⟨⟩, hstage⟩ | ⟨_, ⟨⟩⟩
      exact ⟨chore, hchore, hstage⟩
    · exact absurd (h.orderly.exclusive ⟨_, hi⟩ ⟨_, hj⟩) hij
  · rcases hfile with ⟨hsame, -⟩ | ⟨-, -, ms, hms, -⟩
    · by_cases hij : i = j
      · subst hij
        exact h.known (hsame ▸ hj)
      · exact h.known (hothers j hij ▸ hj)
    · by_cases hij : i = j
      · subst hij
        exact ⟨ms, hms⟩
      · exact h.known (hothers j hij ▸ hj)
  · rcases hfile with ⟨hsame, hbytes⟩ | ⟨hold, hnew, ms, hms, hbytes⟩
    · refine h.file.congr (List.filter_congr fun j _ => ?_) hbytes
      by_cases hij : i = j
      · exact hij ▸ hsame
      · exact hothers j hij
    · have hsuccesses : u'.successes = before.filter u'.succeeded ++ [i] := by
        show u.shared.turns.filter u'.succeeded = _
        rw [hbefore, List.filter_append, List.filter_cons_of_pos hnew, List.filter_nil]
      rw [Mirrors, hsuccesses, List.getLast?_concat]
      exact ⟨ms, hms, hbytes⟩

theorem succeeded_place {rest' : Procedure PersistentTable (Except StoreError Unit)}
    (hi : u.shared.tasks[i]? = some (.active rest)) (hchore : u.chores[i]? = some chore)
    (m : PersistentTable) :
    succeeded { u with shared := { u.shared.place i (.active rest') with state := m } } i
      = isWritten chore rest' :=
  succeeded_active (u := { u with shared := { u.shared.place i (.active rest') with state := m } })
    hchore (Shared.getElem?_place_self hi _)

theorem succeeded_finish {r : Except StoreError Unit}
    (hi : u.shared.tasks[i]? = some (.active (.done r))) :
    succeeded { u with shared := u.shared.place i (.finished r) } i = u.succeeded i := by
  rw [succeeded, succeeded, hi, Shared.getElem?_place_self hi]
  rcases r with e | ⟨⟩ <;> rfl

/-- **One event keeps what is known**, if what a flush takes down is among the metrics that are
said. -/
theorem Sound.does (h : u.Sound taken b) {e : Event} {u' : Upkeep} (hdoes : u.Does e u')
    (htaken : ∀ i, e = .advance i → u.TakesDown i → taken i u.state.getAll) :
    u'.Sound taken b := by
  cases hdoes with
  | nothing => exact h
  | save call =>
    rw [h.perform_eq call]
    exact h.withTable _
  | ask _ chore f => exact (h.ask chore).withFlusher f
  | turn _ f => exact h.withFlusher f
  | enter hi hfree => exact h.enter hi hfree
  | advance hi =>
    obtain ⟨chore, hchore, hstage⟩ := h.active hi
    have hstep := hstage.advances rfl fun hflush hrest =>
      htaken _ rfl ⟨hflush ▸ hchore, hrest ▸ hi⟩
    have hold : u.succeeded _ = false := succeeded_active hchore hi
    refine h.place hi hchore _ _ hstep.policy (.inl ⟨_, rfl, hstep.stage⟩) ?_
    rcases hstep.file with ⟨hwritten, hbytes⟩ | ⟨hwritten, hms⟩
    · exact .inl ⟨(succeeded_place hi hchore _).trans (hwritten.trans hold.symm), hbytes⟩
    · exact .inr ⟨hold, (succeeded_place hi hchore _).trans hwritten, hms⟩
  | finish hi =>
    obtain ⟨chore, hchore, hstage⟩ := h.active hi
    exact h.place hi hchore _ u.state rfl (.inr ⟨_, rfl⟩) (.inl ⟨succeeded_finish hi, rfl⟩)

/-! ### What stays -/

/-- Turns and chores are only ever added, and a flush that has succeeded has succeeded for good. -/
theorem Sound.does_keeps (h : u.Sound taken b) {e : Event} {u' : Upkeep} (hdoes : u.Does e u') :
    u.shared.turns <+: u'.shared.turns ∧ u.chores <+: u'.chores ∧
      ∀ i, u.succeeded i → u'.succeeded i := by
  cases hdoes with
  | nothing | save | turn => exact ⟨List.prefix_rfl, List.prefix_rfl, fun _ h => h⟩
  | ask _ chore f =>
    exact ⟨List.prefix_rfl, List.prefix_append _ _, fun i hi => (h.succeeded_ask chore i).trans hi⟩
  | enter hi =>
    exact ⟨List.prefix_append _ _, List.prefix_rfl, fun j hj =>
      (h.succeeded_enter hi _ j).trans hj⟩
  | @advance i act next hi =>
    refine ⟨List.prefix_rfl, List.prefix_rfl, fun j hj => ?_⟩
    by_cases hij : i = j
    · subst hij
      obtain ⟨chore, hchore, -⟩ := h.active hi
      rw [succeeded_active hchore hi] at hj
      cases hj
    · exact (succeeded_other hi hij _ _ _).trans hj
  | @finish i r hi =>
    refine ⟨List.prefix_rfl, List.prefix_rfl, fun j hj => ?_⟩
    by_cases hij : i = j
    · subst hij
      exact (succeeded_finish hi).trans hj
    · exact (succeeded_other hi hij _ _ _).trans hj

/-- Only a save, or a restore that has read the file, changes the table. -/
theorem Sound.table_eq (h : u.Sound taken b) {e : Event} {u' : Upkeep} (hdoes : u.Does e u')
    (he : ¬ u.Writes e) : u'.state.table = u.state.table := by
  cases hdoes with
  | nothing | ask | turn | enter | finish => rfl
  | save call => exact absurd trivial he
  | @advance i act next hi =>
    obtain ⟨chore, hchore, hstage⟩ := h.active hi
    rcases hstage.next.table with htable | ⟨rfl, ms, hputting⟩
    · exact htable
    · exact absurd ⟨hchore, ms, hputting ▸ hi⟩ he

end Sound

/-! ### Any course of events -/

/-- What a flush has taken down in a course of events. -/
def Taken (m : PersistentTable) (events : List Event) (i : ℕ) (ms : List Metric) : Prop :=
  ∃ before after, events = before ++ .advance i :: after ∧ ((start m).run before).TakesDown i ∧
    ms = ((start m).run before).state.getAll

theorem sound_run (m : PersistentTable) {n : ℕ} (hm : m.policy = .every n) (events : List Event) :
    ((start m).run events).Sound (Taken m events) m.bytes := by
  induction events using List.reverseRecOn with
  | nil => exact sound_start m hm
  | append_singleton events e ih =>
    rw [run_concat]
    refine (ih.mono ?_).does (does_step _ e) ?_
    · rintro i ms ⟨before, after, rfl, htakes, hms⟩
      exact ⟨before, after ++ [e], by simp, htakes, hms⟩
    · rintro i rfl htakes
      exact ⟨events, [], rfl, htakes, rfl⟩

/-- What is known stays known while events follow that do not write the table. -/
theorem Sound.run_quiet {taken : ℕ → List Metric → Prop} {b : Option Bytes} {u : Upkeep}
    {events : List Event} (h : u.Sound taken b) (hquiet : u.Quiet events)
    (htaken : ∀ i, taken i u.state.getAll) :
    (u.run events).Sound taken b ∧ (u.run events).state.table = u.state.table := by
  induction events generalizing u with
  | nil => exact ⟨h, rfl⟩
  | cons e events ih =>
    have htable := h.table_eq (u.does_step e) hquiet.1
    have htaken' : ∀ i, taken i (u.step e).state.getAll := by
      intro i
      rw [getAll, htable]
      exact htaken i
    obtain ⟨hsound, hrest⟩ := ih (h.does (u.does_step e) fun i _ _ => htaken i) hquiet.2 htaken'
    exact ⟨hsound, hrest.trans htable⟩

/-- Whatever flushes take down. -/
theorem Sound.next {taken : ℕ → List Metric → Prop} {b : Option Bytes} {u : Upkeep}
    (h : u.Sound taken b) (e : Event) : (u.step e).Sound (fun _ _ => True) b :=
  (h.mono fun _ _ _ => trivial).does (u.does_step e) fun _ _ _ => trivial

theorem Sound.run_keeps {taken : ℕ → List Metric → Prop} {b : Option Bytes} {u : Upkeep}
    (h : u.Sound taken b) (events : List Event) :
    u.shared.turns <+: (u.run events).shared.turns ∧ u.chores <+: (u.run events).chores ∧
      ∀ i, u.succeeded i → (u.run events).succeeded i := by
  induction events generalizing u taken with
  | nil => exact ⟨List.prefix_rfl, List.prefix_rfl, fun _ h => h⟩
  | cons e events ih =>
    obtain ⟨hturns, hchores, hsucceeded⟩ := h.does_keeps (u.does_step e)
    obtain ⟨hturns', hchores', hsucceeded'⟩ := ih (h.next e)
    exact ⟨hturns.trans hturns', hchores.trans hchores',
      fun i hi => hsucceeded' i (hsucceeded i hi)⟩

/-- A flush that takes the metrics down while nobody has written the table ever since, and succeeds,
leaves them in the file, whatever flushes come after it. -/
theorem Sound.bytes_of_quiet {taken : ℕ → List Metric → Prop} {b : Option Bytes} {u : Upkeep}
    {events : List Event} {i : ℕ} (h : u.Sound taken b) (htakes : u.TakesDown i)
    (hquiet : u.Quiet (.advance i :: events))
    (hsucceeded : (u.run (.advance i :: events)).succeeded i) :
    (u.run (.advance i :: events)).state.bytes
      = some (Snapshot.format (u.run (.advance i :: events)).state.getAll) := by
  obtain ⟨hflush, hi⟩ := htakes
  obtain ⟨before, hbefore⟩ := h.orderly.active hi
  have hnot : ¬ u.succeeded i := by
    rw [succeeded_active hflush hi]
    exact Bool.false_ne_true
  -- the flushes before this one may have taken down something else
  let taken' : ℕ → List Metric → Prop := fun k ms => k ∈ before ∨ ms = u.state.getAll
  have hsound : u.Sound taken' b := by
    refine { h with active := fun {j rest} hj => ?_, known := fun _ => ⟨_, .inr rfl⟩, file := ?_ }
    · obtain rfl := h.orderly.exclusive ⟨_, hi⟩ ⟨_, hj⟩
      cases hi.symm.trans hj
      exact ⟨.flush, hflush, .flushing⟩
    · have hfile := h.file
      rw [Mirrors] at hfile ⊢
      split at hfile
      · exact hfile
      · rename_i k hk
        obtain ⟨ms, -, hbytes⟩ := hfile
        obtain ⟨hturn, hk⟩ := List.mem_filter.mp (List.mem_of_getLast? hk)
        rw [hbefore, List.mem_append, List.mem_singleton] at hturn
        exact ⟨ms, .inl (hturn.resolve_right fun heq => hnot (heq ▸ hk)), hbytes⟩
  obtain ⟨hsound', htable⟩ := hsound.run_quiet hquiet fun _ => .inr rfl
  obtain ⟨⟨later, hlater⟩, -, -⟩ := h.run_keeps (.advance i :: events)
  set u' := u.run (.advance i :: events)
  have hturns : u'.shared.turns = before ++ i :: later := by
    rw [← hlater, hbefore, List.append_assoc]
    rfl
  have hlast : u'.successes.getLast? = (i :: later.filter u'.succeeded).getLast? := by
    rw [successes, hturns, List.filter_append, List.filter_cons_of_pos hsucceeded,
      List.getLast?_append_cons]
  have hfile := hsound'.file
  rw [Mirrors, hlast] at hfile
  split at hfile
  · rename_i hnone
    cases List.getLast?_eq_none_iff.mp hnone
  · rename_i k hk
    obtain ⟨ms, hk' | rfl, hbytes⟩ := hfile
    · have hnodup := hsound'.orderly.nodup
      rw [hturns] at hnodup
      have hmem : k ∈ i :: later :=
        (List.filter_sublist.cons_cons i).subset (List.mem_of_getLast? hk)
      exact absurd hmem (List.disjoint_of_nodup_append hnodup hk')
    · rw [hbytes, getAll, getAll, htable]

/-- What is asked for stays asked for. -/
theorem Sound.getElem?_chores {taken : ℕ → List Metric → Prop} {b : Option Bytes} {u : Upkeep}
    {i : ℕ} {chore : Chore} (h : u.Sound taken b) (events : List Event)
    (hi : u.chores[i]? = some chore) : (u.run events).chores[i]? = some chore := by
  obtain ⟨-, ⟨asked, hasked⟩, -⟩ := h.run_keeps events
  rw [← hasked, List.getElem?_append_left (List.getElem?_eq_some_iff.mp hi).1, hi]

/-- A step of a flush leaves the table, and the file as well if the flush never succeeds. -/
theorem Sound.advance_flush {taken : ℕ → List Metric → Prop} {b : Option Bytes} {u : Upkeep}
    {i : ℕ} {after : List Event} (h : u.Sound taken b)
    (hflush : (u.run (.advance i :: after)).chores[i]? = some .flush) :
    (u.step (.advance i)).state.table = u.state.table ∧
      ((u.run (.advance i :: after)).succeeded i = false →
        (u.step (.advance i)).state.bytes = u.state.bytes) := by
  have hkept : (u.step (.advance i)).succeeded i → (u.run (.advance i :: after)).succeeded i :=
    ((h.next _).run_keeps after).2.2 i
  have hchores : ∀ chore, u.chores[i]? = some chore → chore = .flush := fun chore hchore =>
    Option.some.inj ((h.getElem?_chores _ hchore).symm.trans hflush)
  have hdoes := u.does_step (.advance i)
  generalize u.step (.advance i) = u' at hdoes hkept ⊢
  cases hdoes with
  | nothing | ask | turn | finish => exact ⟨rfl, fun _ => rfl⟩
  | advance hi =>
    obtain ⟨chore, hchore, hstage⟩ := h.active hi
    obtain rfl := hchores chore hchore
    obtain htable | ⟨⟨⟩, -⟩ := hstage.next.table
    refine ⟨htable, fun hnot => ?_⟩
    rcases hstage.next.file with ⟨-, hbytes⟩ | ⟨hwritten, -⟩
    · exact hbytes
    · have hsucceeded := hkept ((succeeded_place hi hchore _).trans hwritten)
      rw [hnot] at hsucceeded
      cases hsucceeded

/-- **A table that is saved at intervals and its file**, after any course of events: metrics are
saved, alone or in batches, flushes and restores are asked for and take their turns, the timer of
the flusher is due and the flusher is told to stop, in any order and with any mishaps of the disk.

The file is what it was in the beginning until a flush succeeds. From then on it holds exactly the
metrics that the table had when the last flush that has succeeded took them down. A flush leaves the
table, and the file as well unless it succeeds. A save leaves the file and all that is beside it.
When the flusher has ended with a flush that has succeeded, and the table was not written since that
flush took the metrics down, the file holds exactly the metrics of the table. -/
theorem mirrored_at_intervals (table : Table) (file : SnapshotFile) (n : ℕ)
    (events : List Event) :
    let m : PersistentTable := ⟨table, file, .every n⟩
    let run := (start m).run
    let u := run events
    (u.successes = [] → u.state.bytes = m.bytes) ∧
      (∀ i, u.successes.getLast? = some i →
        ∃ before after, events = before ++ .advance i :: after ∧ (run before).TakesDown i ∧
          u.state.bytes = some (Snapshot.format (run before).state.getAll)) ∧
      (∀ before i after, events = before ++ .advance i :: after → u.chores[i]? = some .flush →
        (run (before ++ [.advance i])).state.table = (run before).state.table ∧
          (u.succeeded i = false →
            (run (before ++ [.advance i])).state.bytes = (run before).state.bytes)) ∧
      (∀ before call after, events = before ++ .save call :: after →
        (run (before ++ [.save call])).state.file = (run before).state.file) ∧
      ∀ i, u.flusher = .ended i → u.succeeded i →
        (∃ before after, events = before ++ .advance i :: after ∧ (run before).TakesDown i) ∧
          ∀ before after, events = before ++ .advance i :: after → (run before).TakesDown i →
            (run before).Quiet (.advance i :: after) →
            u.state.bytes = some (Snapshot.format u.state.getAll) := by
  intro m run u
  have hsound : ∀ events, (run events).Sound (Taken m events) m.bytes := sound_run m rfl
  refine ⟨fun hnone => ?_, fun i hlast => ?_, ?_, ?_, fun i hended hsucceeded => ?_⟩
  · have hfile := (hsound events).file
    rwa [Mirrors, show (run events).successes = [] from hnone] at hfile
  · have hfile := (hsound events).file
    rw [Mirrors, show (run events).successes.getLast? = some i from hlast] at hfile
    obtain ⟨ms, ⟨before, after, heq, htakes, rfl⟩, hbytes⟩ := hfile
    exact ⟨before, after, heq, htakes, hbytes⟩
  · rintro before i after rfl hflush
    have hrun : u = (run before).run (.advance i :: after) := run_append ..
    rw [hrun] at hflush ⊢
    rw [show run (before ++ [.advance i]) = (run before).step (.advance i) from run_concat ..]
    exact (hsound before).advance_flush hflush
  · rintro before call after rfl
    have hstep : run (before ++ [.save call]) = (run before).step (.save call) := run_concat ..
    rw [hstep]
    show ((run before).state.perform call).2.file = _
    rw [(hsound before).perform_eq call]
  · refine ⟨?_, ?_⟩
    · obtain ⟨ms, before, after, heq, htakes, -⟩ := (hsound events).known hsucceeded
      exact ⟨before, after, heq, htakes⟩
    rintro before after rfl htakes hquiet
    have hrun : u = (run before).run (.advance i :: after) := run_append ..
    rw [hrun] at hsucceeded ⊢
    exact (hsound before).bytes_of_quiet htakes hquiet hsucceeded

/-- A metric is saved, and the flusher flushes when it is told to stop. -/
theorem mirrored_at_intervals_stopped :
    let x : Metric := ⟨"n", .counter 1⟩
    let m : PersistentTable := ⟨.empty, ⟨["metrics.json"], {}⟩, .every 300⟩
    let before : List Event := [.save (.one x), .stop, .enter 0]
    let u := (start m).run (before ++ [.advance 0, .advance 0, .advance 0, .advance 0, .finish])
    u.flusher = .ended 0 ∧ u.state.getAll = [x] ∧ u.state.bytes = some (Snapshot.format [x]) := by
  intro x m before u
  have hended : u.flusher = .ended 0 := by decide +kernel
  have hsucceeded : u.succeeded 0 := by decide +kernel
  have htakes : ((start m).run before).TakesDown 0 := ⟨rfl, rfl⟩
  have hgetAll : u.state.getAll = [x] := by decide +kernel
  obtain ⟨-, -, -, -, hlast⟩ := mirrored_at_intervals .empty ⟨["metrics.json"], {}⟩ 300
    (before ++ [.advance 0, .advance 0, .advance 0, .advance 0, .finish])
  have hbytes := (hlast 0 hended hsucceeded).2 before _ rfl htakes ?_
  · exact ⟨hended, hgetAll, hgetAll ▸ hbytes⟩
  · refine ⟨?_, ?_, ?_, ?_, id, trivial⟩ <;> exact fun h => absurd h.1 (by decide +kernel)

end Telemetry.Upkeep
