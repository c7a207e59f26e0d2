import Telemetry.Proofs.Store.Steps

/-!
# A table that is saved at intervals

Metrics are saved in the table alone, at any time. Flushes and restores take turns; a flush takes
the metrics down first and writes them to the file afterwards, while the table goes on growing. A
flusher flushes whenever its timer is due and it is not flushing still, and once more when it is
told to stop.

## Main definitions

* `Telemetry.PersistentTable.flushing`, `Telemetry.PersistentTable.restoring` — the steps of a flush
  and of a restore
* `Telemetry.Upkeep` — a table with its flusher, and what was asked for
* `Telemetry.Upkeep.step`, `Telemetry.Upkeep.run` — what events do

## Main results

* `Telemetry.PersistentTable.run_flushing`, `Telemetry.PersistentTable.run_restoring` — without
  anyone in between the steps amount to the operations
* `Telemetry.Upkeep.does_step` — all that an event can do
* `Telemetry.Upkeep.flusher_alone` — the flusher does what the timer of a table does
-/

namespace Telemetry

namespace PersistentTable

/-! ### Flushes and restores, step by step -/

/-- The metrics that a flush takes down. -/
def takeDown (m : PersistentTable) : List Metric × PersistentTable := (m.getAll, m)

/-- Writes metrics that were taken down into a new version of the file. -/
def draftOf (ms : List Metric) (m : PersistentTable) : Except StoreError Unit × PersistentTable :=
  let (r, file) := m.file.draft ms
  (r, { m with file })

/-- Reads the file. -/
def loadFile (m : PersistentTable) : Except StoreError (List Metric) × PersistentTable :=
  let (r, file) := m.file.load
  (r, { m with file })

/-- Takes metrics into the table. -/
def put (m : PersistentTable) (ms : List Metric) : PersistentTable :=
  { m with table := m.table.putAll ms }

/-- The last step of a flush. -/
def publishing : Procedure PersistentTable (Except StoreError Unit) := .call publish .done

/-- The steps of a flush when the metrics are taken down. -/
def drafting (ms : List Metric) : Procedure PersistentTable (Except StoreError Unit) :=
  .call (draftOf ms) fun
    | .error e => .done (.error e)
    | .ok () => publishing

/-- The steps of a flush. -/
def flushing : Procedure PersistentTable (Except StoreError Unit) := .call takeDown drafting

/-- The steps of a restore when the file is read. -/
def putting (ms : List Metric) : Procedure PersistentTable (Except StoreError Unit) :=
  .call (fun m => ((), m.put ms)) fun _ => .done (.ok ())

/-- The steps of a restore. -/
def restoring : Procedure PersistentTable (Except StoreError Unit) :=
  .call loadFile fun
    | .error e => .done (.error e)
    | .ok ms => putting ms

/-- Without anyone in between the steps amount to the operation. -/
theorem run_flushing (m : PersistentTable) : flushing.run m = m.flush := by
  rw [flush_eq]
  simp only [flushing, drafting, publishing, takeDown, Procedure.run_call]
  have hdraft : draftOf m.getAll m = m.draft := rfl
  rw [hdraft]
  rcases m.draft with ⟨_ | ⟨⟩, n⟩ <;> rfl

theorem run_restoring (m : PersistentTable) :
    restoring.run m = (m.restore.1.map fun _ => (), m.restore.2) := by
  simp only [restoring, putting, restore, loadFile, Procedure.run_call]
  rcases m.file.load with ⟨_ | ms, file⟩ <;> rfl

end PersistentTable

open PersistentTable

/-- What can be asked for beside saving metrics. -/
inductive Chore where
  | flush
  | restore
  deriving DecidableEq, Repr

/-- The steps of a chore. -/
def Chore.steps : Chore → Procedure PersistentTable (Except StoreError Unit)
  | .flush => flushing
  | .restore => restoring

/-- What the flusher does: it waits for its timer, it flushes, it flushes for the last time, or it
has ended with its last flush. -/
inductive Flusher where
  | waiting
  | flushing (task : ℕ)
  | closing (task : ℕ)
  | ended (task : ℕ)
  deriving DecidableEq, Repr

/-- A table with its flusher, and the flushes and restores that were ever asked for, by the flusher
or by others. -/
structure Upkeep where
  shared : Shared PersistentTable (Except StoreError Unit)
  chores : List Chore := []
  flusher : Flusher := .waiting

namespace Upkeep

/-- What can happen. -/
inductive Event where
  | save (call : Saving)
  /-- Someone asks for a flush or for a restore. -/
  | ask (chore : Chore)
  /-- A task comes to its turn. -/
  | enter (task : ℕ)
  /-- The task that has the turn does its next step. -/
  | advance (task : ℕ)
  /-- The timer of the flusher is due. -/
  | tick
  /-- The flusher waits again after a flush. -/
  | resume
  /-- The flusher is told to stop. -/
  | stop
  /-- The flusher ends after its last flush. -/
  | finish

/-- The table and its file. -/
def state (u : Upkeep) : PersistentTable := u.shared.state

/-- A table whose flusher has just started. -/
def start (m : PersistentTable) : Upkeep := { shared := .create m [] }

/-- One more task. -/
def ask (u : Upkeep) (chore : Chore) : Upkeep :=
  { u with
    shared := { u.shared with tasks := u.shared.tasks ++ [.waiting chore.steps] }
    chores := u.chores ++ [chore] }

/-- A move of a task, if it is possible. -/
def move (u : Upkeep) (m : Shared.Move) : Upkeep :=
  { u with shared := (u.shared.step? m).getD u.shared }

/-- Is a task over? -/
def isOver (u : Upkeep) (i : ℕ) : Bool :=
  match u.shared.tasks[i]? with
  | some (.finished _) => true
  | _ => false

/-- What an event does. One that is not possible does nothing. -/
def step (u : Upkeep) : Event → Upkeep
  | .save call => { u with shared := { u.shared with state := (u.state.perform call).2 } }
  | .ask chore => u.ask chore
  | .enter i => u.move (.enter i)
  | .advance i => u.move (.advance i)
  | .tick =>
    match u.flusher with
    | .waiting => { u.ask .flush with flusher := .flushing u.chores.length }
    | _ => u
  | .resume =>
    match u.flusher with
    | .flushing i => if u.isOver i then { u with flusher := .waiting } else u
    | _ => u
  | .stop =>
    match u.flusher with
    | .waiting => { u.ask .flush with flusher := .closing u.chores.length }
    | _ => u
  | .finish =>
    match u.flusher with
    | .closing i => if u.isOver i then { u with flusher := .ended i } else u
    | _ => u

/-- What events do, one after the other. -/
def run (u : Upkeep) (events : List Event) : Upkeep := events.foldl step u

/-- Is a task a flush that has put its metrics into the file? -/
def succeeded (u : Upkeep) (i : ℕ) : Bool :=
  u.chores[i]? = some .flush &&
    match u.shared.tasks[i]? with
    | some (.active (.done (.ok ()))) => true
    | some (.finished (.ok ())) => true
    | _ => false

/-- The flushes that have succeeded, in the order of their turns. -/
def successes (u : Upkeep) : List ℕ := u.shared.turns.filter u.succeeded

/-- Is a task a flush that takes the metrics down next? -/
def TakesDown (u : Upkeep) (i : ℕ) : Prop :=
  u.chores[i]? = some .flush ∧ u.shared.tasks[i]? = some (.active PersistentTable.flushing)

/-- Is the table written next, by a save or by a restore that has read the file? -/
def Writes (u : Upkeep) : Event → Prop
  | .save _ => True
  | .advance i =>
    u.chores[i]? = some .restore ∧ ∃ ms, u.shared.tasks[i]? = some (.active (putting ms))
  | _ => False

/-- Nobody writes the table. -/
def Quiet (u : Upkeep) : List Event → Prop
  | [] => True
  | e :: events => ¬ u.Writes e ∧ (u.step e).Quiet events

/-! ### What an event does -/

/-- All that an event can do. -/
inductive Does (u : Upkeep) : Event → Upkeep → Prop where
  | nothing (e) : Does u e u
  | save (call) :
      Does u (.save call) { u with shared := { u.shared with state := (u.state.perform call).2 } }
  /-- Someone asks for a chore, or the flusher for a flush. -/
  | ask (e chore f) : Does u e { u.ask chore with flusher := f }
  /-- The flusher is done with its flush. -/
  | turn (e f) : Does u e { u with flusher := f }
  | enter {i p} (hi : u.shared.tasks[i]? = some (.waiting p)) (hfree : u.shared.isFree) :
      Does u (.enter i)
        { u with shared := { u.shared.place i (.active p) with turns := u.shared.turns ++ [i] } }
  | advance {i act next} (hi : u.shared.tasks[i]? = some (.active (.step act next))) :
      Does u (.advance i)
        { u with
          shared := { u.shared.place i (.active (next u.state)) with state := act u.state } }
  | finish {i r} (hi : u.shared.tasks[i]? = some (.active (.done r))) :
      Does u (.advance i) { u with shared := u.shared.place i (.finished r) }

theorem does_step (u : Upkeep) (e : Event) : u.Does e (u.step e) := by
  cases e with
  | save call => exact .save call
  | ask chore => exact .ask _ chore u.flusher
  | enter i =>
    rw [step, move]
    rcases hm : u.shared.step? (.enter i) with _ | c
    · exact .nothing _
    · cases Shared.happens_of_step? hm with
      | enter hi hfree => exact .enter hi hfree
  | advance i =>
    rw [step, move]
    rcases hm : u.shared.step? (.advance i) with _ | c
    · exact .nothing _
    · cases Shared.happens_of_step? hm with
      | advance hi => exact .advance hi
      | finish hi => exact .finish hi
  | tick =>
    rw [step]
    split
    · exact .ask _ .flush _
    · exact .nothing _
  | resume =>
    rw [step]
    split
    · split_ifs
      · exact .turn _ _
      · exact .nothing _
    · exact .nothing _
  | stop =>
    rw [step]
    split
    · exact .ask _ .flush _
    · exact .nothing _
  | finish =>
    rw [step]
    split
    · split_ifs
      · exact .turn _ _
      · exact .nothing _
    · exact .nothing _

theorem run_append (u : Upkeep) (before after : List Event) :
    u.run (before ++ after) = (u.run before).run after :=
  List.foldl_append

theorem run_concat (u : Upkeep) (events : List Event) (e : Event) :
    u.run (events ++ [e]) = (u.run events).step e :=
  List.foldl_concat ..

/-! ### The flusher alone -/

theorem run_advances (u : Upkeep) (i k : ℕ) :
    u.run (List.replicate k (.advance i))
      = { u with shared := u.shared.run (List.replicate k (.advance i)) } := by
  induction k generalizing u with
  | zero => rfl
  | succ k ih => exact ih (u.step (.advance i))

/-- A flush that the flusher has asked for amounts to the operation when nobody comes in between. -/
theorem run_flush_alone {u : Upkeep} (hlength : u.chores.length = u.shared.tasks.length)
    (hfree : u.shared.isFree) : ∃ k, ∀ f,
      let v := run { u.ask .flush with flusher := f }
        (.enter u.chores.length :: List.replicate k (.advance u.chores.length))
      v.state = u.state.flush.2 ∧ v.flusher = f ∧ v.isOver u.chores.length := by
  have hi : (u.ask .flush).shared.tasks[u.chores.length]? = some (.waiting flushing) := by
    rw [hlength]
    exact List.getElem?_concat_length ..
  have hfree' : (u.ask .flush).shared.isFree := by
    simpa [ask, Shared.isFree, Task.isActive] using hfree
  obtain ⟨k, hk⟩ := Shared.run_alone hi hfree'
  refine ⟨k, fun f => ?_⟩
  intro v
  have hv : v = { u.ask .flush with
      shared := ⟨(flushing.run u.state).2,
        (u.ask .flush).shared.tasks.set u.chores.length (.finished (flushing.run u.state).1),
        u.shared.turns ++ [u.chores.length]⟩
      flusher := f } := by
    refine (run_advances (step { u.ask .flush with flusher := f } (.enter u.chores.length))
      u.chores.length k).trans ?_
    exact congrArg (fun shared => { u.ask .flush with shared, flusher := f }) hk
  rw [hv]
  refine ⟨congrArg Prod.snd (run_flushing u.state), rfl, ?_⟩
  have hbound : u.chores.length < (u.ask .flush).shared.tasks.length :=
    (List.getElem?_eq_some_iff.mp hi).1
  simp only [isOver, List.getElem?_set_self hbound]

theorem step_resume {u : Upkeep} {i : ℕ} (hflusher : u.flusher = .flushing i) (h : u.isOver i) :
    u.step .resume = { u with flusher := .waiting } := by
  rw [step, hflusher]
  exact if_pos h

theorem step_finish {u : Upkeep} {i : ℕ} (hflusher : u.flusher = .closing i) (h : u.isOver i) :
    u.step .finish = { u with flusher := .ended i } := by
  rw [step, hflusher]
  exact if_pos h

/-- **The flusher alone does what the timer of a table does**: when the timer is due it flushes, and
when it is told to stop it flushes for the last time. -/
theorem flusher_alone {u : Upkeep} (hwaiting : u.flusher = .waiting)
    (hlength : u.chores.length = u.shared.tasks.length) (hfree : u.shared.isFree) :
    ∃ k, let course : List Event :=
        .enter u.chores.length :: List.replicate k (.advance u.chores.length)
      let v := u.run (.tick :: course ++ [.resume])
      let w := u.run (.stop :: course ++ [.finish])
      (v.state = SaveTimer.flushes 1 u.state ∧ v.flusher = .waiting) ∧
        w.state = SaveTimer.stop u.state ∧ w.flusher = .ended u.chores.length := by
  obtain ⟨k, hk⟩ := run_flush_alone hlength hfree
  refine ⟨k, ?_⟩
  intro course v w
  have htick : u.step .tick = { u.ask .flush with flusher := .flushing u.chores.length } := by
    rw [step, hwaiting]
  have hstop : u.step .stop = { u.ask .flush with flusher := .closing u.chores.length } := by
    rw [step, hwaiting]
  have hv : v = ((u.step .tick).run course).step .resume := run_concat u (.tick :: course) .resume
  have hw : w = ((u.step .stop).run course).step .finish := run_concat u (.stop :: course) .finish
  constructor
  · obtain ⟨hstate, hflusher, hover⟩ := hk (.flushing u.chores.length)
    rw [hv, htick, step_resume hflusher hover]
    exact ⟨hstate, rfl⟩
  · obtain ⟨hstate, hflusher, hover⟩ := hk (.closing u.chores.length)
    rw [hw, hstop, step_finish hflusher hover]
    exact ⟨hstate, rfl⟩

end Upkeep
end Telemetry
