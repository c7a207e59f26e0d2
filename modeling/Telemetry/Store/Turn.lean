/-!
# Taking turns

A procedure changes a state step by step. Tasks share a state, and at most one of them has the
turn: it does its steps while the others wait. Between two steps anyone may look at the state, and
a task may be given up, with or without the turn; its remaining steps are then never done. That
includes a step that is under way at that moment, if it is not done by then: it is taken for granted
that nobody finishes it when the turn has passed to another task.

## Main definitions

* `Telemetry.Procedure`, `Telemetry.Procedure.run`: steps, and all of them at a stretch.
* `Telemetry.Procedure.stateAfter`, `Telemetry.Procedure.resultAfter`: the state in which a
  procedure stands still, and its result if it has returned.
* `Telemetry.Shared`, `Telemetry.Shared.step?`, `Telemetry.Shared.run`: tasks that share a state,
  and any course of what they do.
-/

namespace Telemetry

variable {σ α β : Type}

/-- Steps that end with a result. What follows a step depends on the state in front of it. -/
inductive Procedure (σ α : Type) where
  | done (a : α)
  | step (act : σ → σ) (next : σ → Procedure σ α)

namespace Procedure

/-- A step that has a result of its own. -/
def call (f : σ → β × σ) (next : β → Procedure σ α) : Procedure σ α :=
  .step (fun s => (f s).2) fun s => next (f s).1

/-- All steps at a stretch. -/
def run : Procedure σ α → σ → α × σ
  | .done a, s => (a, s)
  | .step act next, s => (next s).run (act s)

/-- The state after a number of steps, or after all of them if there are fewer. -/
def stateAfter : Nat → Procedure σ α → σ → σ
  | 0, _, s => s
  | _ + 1, .done _, s => s
  | n + 1, .step act next, s => stateAfter n (next s) (act s)

/-- The result, if it is there when a number of steps is done. To return it counts as a step. -/
def resultAfter : Nat → Procedure σ α → σ → Option α
  | 0, _, _ => none
  | _ + 1, .done a, _ => some a
  | n + 1, .step act next, s => resultAfter n (next s) (act s)

@[simp] theorem run_done (a : α) (s : σ) : (done a : Procedure σ α).run s = (a, s) := rfl

@[simp] theorem run_call (f : σ → β × σ) (next : β → Procedure σ α) (s : σ) :
    (call f next).run s = (next (f s).1).run (f s).2 := rfl

@[simp] theorem stateAfter_zero (p : Procedure σ α) (s : σ) : stateAfter 0 p s = s := by
  cases p <;> rfl

@[simp] theorem stateAfter_done (a : α) (n : Nat) (s : σ) :
    (done a : Procedure σ α).stateAfter n s = s := by
  cases n <;> rfl

@[simp] theorem stateAfter_call (f : σ → β × σ) (next : β → Procedure σ α) (n : Nat) (s : σ) :
    (call f next).stateAfter (n + 1) s = (next (f s).1).stateAfter n (f s).2 := rfl

/-- A procedure that has returned has done all of its steps. -/
theorem run_of_resultAfter {p : Procedure σ α} {s : σ} {a : α} {n : Nat}
    (h : p.resultAfter n s = some a) : p.run s = (a, p.stateAfter n s) := by
  induction n generalizing p s with
  | zero => cases h
  | succ n ih =>
    cases p with
    | done b =>
      cases h
      rfl
    | step act next => exact ih h

end Procedure

/-- How far a task is. -/
inductive Task (σ α : Type) where
  | waiting (all : Procedure σ α)
  /-- It has the turn. -/
  | active (rest : Procedure σ α)
  | finished (a : α)
  | givenUp

/-- Does the task have the turn? -/
def Task.isActive : Task σ α → Bool
  | .active _ => true
  | _ => false

/-- Tasks that share a state. -/
structure Shared (σ α : Type) where
  state : σ
  tasks : List (Task σ α)
  /-- The numbers of the tasks in the order in which they came to their turns. -/
  turns : List Nat := []

namespace Shared

/-- What a task of a number does, or what is done to it. -/
inductive Move where
  | enter (task : Nat)
  | advance (task : Nat)
  /-- The step that is under way is done before this or never. -/
  | giveUp (task : Nat)
  deriving DecidableEq, Repr

/-- Procedures that have not begun. -/
def create (s : σ) (ps : List (Procedure σ α)) : Shared σ α := ⟨s, ps.map .waiting, []⟩

/-- Is it nobody's turn? -/
def isFree (c : Shared σ α) : Bool := !c.tasks.any Task.isActive

/-- A task of a number in a new place. -/
def place (c : Shared σ α) (i : Nat) (t : Task σ α) : Shared σ α :=
  { c with tasks := c.tasks.set i t }

/-- What a move leads to; nothing if it is not possible. -/
def step? (c : Shared σ α) : Move → Option (Shared σ α)
  | .enter i =>
    match c.tasks[i]? with
    | some (.waiting p) =>
      if c.isFree then some { c.place i (.active p) with turns := c.turns ++ [i] } else none
    | _ => none
  | .advance i =>
    match c.tasks[i]? with
    | some (.active (.done a)) => some (c.place i (.finished a))
    | some (.active (.step act next)) =>
      some { c.place i (.active (next c.state)) with state := act c.state }
    | _ => none
  | .giveUp i =>
    match c.tasks[i]? with
    | some (.waiting _) | some (.active _) => some (c.place i .givenUp)
    | _ => none

/-- A course of moves; those that are not possible do not happen. -/
def run (c : Shared σ α) (moves : List Move) : Shared σ α :=
  moves.foldl (fun c m => (c.step? m).getD c) c

end Shared
end Telemetry
