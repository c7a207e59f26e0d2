import Telemetry.Proofs.Store.Turn
import Mathlib.Logic.Function.Basic

/-!
# Locks

Calls that share a state take locks before they change it, and give them back. A call that waits
for a lock does nothing until it gets it, and a lock that is free goes to anyone who asks for it.
Every call holds one outer lock from its first step to its last, and perhaps further locks in
between, one inside the other. Then the calls take turns: a call comes to its turn when it gets the
outer lock, and the inner ones are free whenever it wants them.

## Main definitions

* `Telemetry.Script` — steps between which locks are taken and given back
* `Telemetry.Locked`, `Telemetry.Locked.run` — calls that share a state, and any course of them
* `Telemetry.Script.Balanced` — inner locks are given back in the end
* `Telemetry.Locked.Simulates` — calls that take turns behind calls that take locks
* `Telemetry.inOrder` — calls that are made one after the other
* `Telemetry.Locked.Serializes` — calls with locks come to the same as calls in order

## Main results

* `Telemetry.Locked.Simulates.does` — a step of a call is a move of a task, or none
* `Telemetry.Locked.Simulates.progress` — unless all calls have returned, some call can go on
* `Telemetry.Shared.run_inOrder` — tasks that take turns come to the same as procedures in order
* `Telemetry.Locked.serializes_run` — whatever course the calls take
-/

namespace Telemetry

variable {σ α β κ : Type}

/-! ### Scripts -/

/-- The locks of a store: a table keeps one for its changes, a file another one for itself. -/
inductive Lock where
  | table
  | file
  deriving DecidableEq

/-- Steps between which locks are taken and given back. -/
inductive Script (σ α : Type) where
  | done (a : α)
  | step (act : σ → σ) (next : σ → Script σ α)
  | acquire (lock : Lock) (rest : Script σ α)
  | release (lock : Lock) (rest : Script σ α)

namespace Script

/-- A step that has a result of its own. -/
def call (f : σ → β × σ) (next : β → Script σ α) : Script σ α :=
  .step (fun s => (f s).2) fun s => next (f s).1

/-- Steps without locks. -/
def of : Procedure σ α → Script σ α
  | .done a => .done a
  | .step act next => .step act fun s => of (next s)

/-- One script after the other. -/
def bind : Script σ α → (α → Script σ β) → Script σ β
  | .done a, k => k a
  | .step act next, k => .step act fun s => (next s).bind k
  | .acquire l q, k => .acquire l (q.bind k)
  | .release l q, k => .release l (q.bind k)

/-- Gives a lock back and returns. -/
def leave (l : Lock) (a : α) : Script σ α := .release l (.done a)

/-- All steps while a lock is held. -/
def under (l : Lock) (q : Script σ α) : Script σ α := .acquire l (q.bind (leave l))

/-- All steps at a stretch, while nobody else wants the locks. -/
def run : Script σ α → σ → α × σ
  | .done a, s => (a, s)
  | .step act next, s => (next s).run (act s)
  | .acquire _ q, s => q.run s
  | .release _ q, s => q.run s

/-- The steps alone. -/
def procedure : Script σ α → Procedure σ α
  | .done a => .done a
  | .step act next => .step act fun s => (next s).procedure
  | .acquire _ q => q.procedure
  | .release _ q => q.procedure

@[simp] theorem run_call (f : σ → β × σ) (next : β → Script σ α) (s : σ) :
    (call f next).run s = (next (f s).1).run (f s).2 := rfl

@[simp] theorem run_of (p : Procedure σ α) (s : σ) : (of p).run s = p.run s := by
  induction p generalizing s with
  | done a => rfl
  | step act next ih => exact ih s (act s)

@[simp] theorem run_bind (q : Script σ α) (k : α → Script σ β) (s : σ) :
    (q.bind k).run s = (k (q.run s).1).run (q.run s).2 := by
  induction q generalizing s with
  | done a => rfl
  | step act next ih => exact ih s (act s)
  | acquire l q ih => exact ih s
  | release l q ih => exact ih s

@[simp] theorem run_under (l : Lock) (q : Script σ α) (s : σ) : (under l q).run s = q.run s :=
  run_bind q _ s

@[simp] theorem run_procedure (q : Script σ α) (s : σ) : q.procedure.run s = q.run s := by
  induction q generalizing s with
  | done a => rfl
  | step act next ih => exact ih s (act s)
  | acquire l q ih => exact ih s
  | release l q ih => exact ih s

/-- From some locks that are held to others, innermost first: none is the outer lock, none is taken
that is held already, and they are given back one by one from the inside. -/
def Balanced (outer : Lock) (final : List Lock) : Script σ α → List Lock → Prop
  | .done _, held => held = final
  | .step _ next, held => ∀ s, (next s).Balanced outer final held
  | .acquire l q, held => l ≠ outer ∧ l ∉ held ∧ q.Balanced outer final (l :: held)
  | .release l q, held => ∃ rest, held = l :: rest ∧ q.Balanced outer final rest

variable {outer : Lock} {held mid final : List Lock}

theorem balanced_of (outer : Lock) (held : List Lock) (p : Procedure σ α) :
    (of p).Balanced outer held held := by
  induction p with
  | done a => rfl
  | step act next ih => exact fun s => ih s

theorem balanced_call {f : σ → β × σ} {next : β → Script σ α}
    (h : ∀ b, (next b).Balanced outer final held) : (call f next).Balanced outer final held :=
  fun _ => h _

theorem Balanced.bind {q : Script σ α} {k : α → Script σ β} (hq : q.Balanced outer mid held)
    (hk : ∀ a, (k a).Balanced outer final mid) : (q.bind k).Balanced outer final held := by
  induction q generalizing held with
  | done a =>
    obtain rfl : held = mid := hq
    exact hk a
  | step act next ih => exact fun s => ih s (hq s)
  | acquire l q ih => exact ⟨hq.1, hq.2.1, ih hq.2.2⟩
  | release l q ih =>
    obtain ⟨rest, hheld, hrest⟩ := hq
    exact ⟨rest, hheld, ih hrest⟩

/-- An inner lock. -/
theorem Balanced.under {l : Lock} {q : Script σ α} (houter : l ≠ outer) (hl : l ∉ held)
    (hq : q.Balanced outer (l :: held) (l :: held)) : (under l q).Balanced outer held held :=
  ⟨houter, hl, hq.bind fun _ => ⟨held, rfl, rfl⟩⟩

end Script

/-! ### Calls that share a state -/

/-- Calls that share a state, who holds each lock, and who got each lock in turn. -/
structure Locked (σ α : Type) where
  state : σ
  calls : List (Script σ α)
  holder : Lock → Option ℕ := fun _ => none
  grants : List (Lock × ℕ) := []

namespace Locked

/-- Calls that have not begun. -/
def create (s : σ) (scripts : List (Script σ α)) : Locked σ α := { state := s, calls := scripts }

/-- The calls that got a lock, in this order. -/
def order (c : Locked σ α) (l : Lock) : List ℕ :=
  c.grants.filterMap fun g => if g.1 = l then some g.2 else none

/-- What is left of the call of a number. -/
def place (c : Locked σ α) (i : ℕ) (q : Script σ α) : Locked σ α :=
  { c with calls := c.calls.set i q }

/-- A lock goes to the call of a number. -/
def grant (c : Locked σ α) (l : Lock) (i : ℕ) (q : Script σ α) : Locked σ α :=
  { c.place i q with
    holder := Function.update c.holder l (some i)
    grants := c.grants ++ [(l, i)] }

/-- A lock is given back by the call of a number. -/
def giveBack (c : Locked σ α) (l : Lock) (i : ℕ) (q : Script σ α) : Locked σ α :=
  { c.place i q with holder := Function.update c.holder l none }

/-- The next step of the call of a number, if it can do one: a lock has to be free to be taken, and
it is given back by who holds it. -/
def step? (c : Locked σ α) (i : ℕ) : Option (Locked σ α) :=
  match c.calls[i]? with
  | some (.step act next) => some { c.place i (next c.state) with state := act c.state }
  | some (.acquire l q) => if c.holder l = none then some (c.grant l i q) else none
  | some (.release l q) => if c.holder l = some i then some (c.giveBack l i q) else none
  | _ => none

/-- A course of steps, each by the call of a number; those that are not possible do not happen. -/
def run (c : Locked σ α) (steps : List ℕ) : Locked σ α :=
  steps.foldl (fun c i => (c.step? i).getD c) c

/-- What a call can do. -/
inductive Does (c : Locked σ α) (i : ℕ) : Locked σ α → Prop where
  | step {act next} (hi : c.calls[i]? = some (.step act next)) :
      Does c i { c.place i (next c.state) with state := act c.state }
  | acquire {l q} (hi : c.calls[i]? = some (.acquire l q)) (hfree : c.holder l = none) :
      Does c i (c.grant l i q)
  | release {l q} (hi : c.calls[i]? = some (.release l q)) (hheld : c.holder l = some i) :
      Does c i (c.giveBack l i q)

variable {c c' : Locked σ α} {i j : ℕ}

theorem step?_eq_some_iff : c.step? i = some c' ↔ c.Does i c' := by
  constructor
  · intro h
    simp only [step?] at h
    split at h
    · cases h
      exact .step ‹_›
    · split_ifs at h with hfree
      cases h
      exact .acquire ‹_› hfree
    · split_ifs at h with hheld
      cases h
      exact .release ‹_› hheld
    · cases h
  · rintro (hi | ⟨hi, hfree⟩ | ⟨hi, hheld⟩)
    · simp only [step?, hi]
    · simp only [step?, hi, if_pos hfree]
    · simp only [step?, hi, if_pos hheld]

/-- What holds in the beginning, and what every step keeps, holds in any course. -/
theorem run_induction {motive : Locked σ α → Prop} (hbegin : motive c)
    (hstep : ∀ {c i c'}, Does c i c' → motive c → motive c') (steps : List ℕ) :
    motive (c.run steps) := by
  induction steps generalizing c with
  | nil => exact hbegin
  | cons i steps ih =>
    have hrest : motive ((c.step? i).getD c) → motive (c.run (i :: steps)) := fun h => ih h
    cases h : c.step? i with
    | none => exact hrest (h ▸ hbegin)
    | some c' => exact hrest (h ▸ hstep (step?_eq_some_iff.mp h) hbegin)

theorem length_run (c : Locked σ α) (steps : List ℕ) :
    (c.run steps).calls.length = c.calls.length := by
  refine run_induction (motive := fun c' => c'.calls.length = c.calls.length) rfl ?_ steps
  rintro c' i c'' (hi | ⟨hi, -⟩ | ⟨hi, -⟩) h
  all_goals exact List.length_set.trans h

theorem holder_grant (c : Locked σ α) (l : Lock) (i : ℕ) (q : Script σ α) :
    (c.grant l i q).holder = Function.update c.holder l (some i) := rfl

theorem holder_giveBack (c : Locked σ α) (l : Lock) (i : ℕ) (q : Script σ α) :
    (c.giveBack l i q).holder = Function.update c.holder l none := rfl

theorem order_grant (c : Locked σ α) (l outer : Lock) (i : ℕ) (q : Script σ α) :
    (c.grant l i q).order outer = c.order outer ++ if l = outer then [i] else [] := by
  rw [order, grant, List.filterMap_append, order]
  by_cases hl : l = outer <;> simp [hl]

/-! ### Turns behind locks -/

/-- A call has the outer lock and some inner ones, which it gives back before it ends. -/
structure Inside (outer : Lock) (holder : Lock → Option ℕ) (i : ℕ) (held : List Lock)
    (q : Script σ α) : Prop where
  balanced : q.Balanced outer [] held
  nodup : (outer :: held).Nodup
  owns : holder outer = some i
  inner : ∀ l, l ≠ outer → holder l = if l ∈ held then some i else none

theorem Inside.eq_of_outer {outer : Lock} {holder : Lock → Option ℕ} {held : List Lock}
    {q : Script σ α} (h : Inside outer holder i held q) (hj : holder outer = some j) : j = i :=
  Option.some.inj (hj.symm.trans h.owns)

/-- How a call stands to a task: it waits for the outer lock, it has the outer lock, or it has
returned. -/
inductive Stands (outer : Lock) (holder : Lock → Option ℕ) (i : ℕ) (script : Script σ α) :
    Task σ α → Prop where
  | waiting (q : Script σ α) (hscript : script = .under outer q) (hq : q.Balanced outer [] []) :
      Stands outer holder i script (.waiting q.procedure)
  | active (q : Script σ α) (held : List Lock) (hscript : script = q.bind (.leave outer))
      (hq : Inside outer holder i held q) : Stands outer holder i script (.active q.procedure)
  | finished (a : α) (hscript : script = .done a) : Stands outer holder i script (.finished a)

/-- What the others can do does not depend on the locks as long as they have none. -/
theorem Stands.other {outer : Lock} {holder holder' : Lock → Option ℕ} {q : Script σ α}
    {t : Task σ α} (h : Stands outer holder i q t) (hne : holder outer ≠ some i) :
    Stands outer holder' i q t := by
  cases h with
  | waiting q hscript hq => exact .waiting q hscript hq
  | active _ _ _ hq => exact absurd hq.owns hne
  | finished a hscript => exact .finished a hscript

/-- The tasks take turns as the calls get the outer lock. -/
structure Simulates (outer : Lock) (c : Locked σ α) (d : Shared σ α) : Prop where
  state : d.state = c.state
  length : d.tasks.length = c.calls.length
  task : ∀ {i q}, c.calls[i]? = some q → ∃ t, d.tasks[i]? = some t ∧ Stands outer c.holder i q t
  holding : ∀ {i}, c.holder outer = some i → d.HasTurn i
  clear : c.holder outer = none → ∀ l, c.holder l = none
  turns : d.turns = c.order outer

variable {outer : Lock} {d : Shared σ α}

theorem set_eq_self {xs : List β} {x : β} (h : xs[i]? = some x) : xs.set i x = xs := by
  obtain ⟨hlt, rfl⟩ := List.getElem?_eq_some_iff.mp h
  exact List.set_getElem_self hlt

namespace Simulates

/-- A task has the turn just if its call has the outer lock. -/
theorem hasTurn_iff (h : Simulates outer c d) : d.HasTurn i ↔ c.holder outer = some i := by
  refine ⟨fun ⟨rest, hi⟩ => ?_, h.holding⟩
  obtain ⟨hbound, -⟩ := List.getElem?_eq_some_iff.mp hi
  rw [h.length] at hbound
  obtain ⟨t, ht, hstands⟩ := h.task (List.getElem?_eq_getElem hbound)
  obtain rfl : Task.active rest = t := Option.some.inj (hi.symm.trans ht)
  cases hstands with
  | active _ _ _ hq => exact hq.owns

theorem isFree_iff (h : Simulates outer c d) : d.isFree ↔ c.holder outer = none := by
  rw [Shared.isFree_iff, Option.eq_none_iff_forall_ne_some]
  exact forall_congr' fun i => not_congr h.hasTurn_iff

theorem ne_givenUp (h : Simulates outer c d) (i : ℕ) : d.tasks[i]? ≠ some .givenUp := by
  intro hi
  obtain ⟨hbound, -⟩ := List.getElem?_eq_some_iff.mp hi
  rw [h.length] at hbound
  obtain ⟨t, ht, hstands⟩ := h.task (List.getElem?_eq_getElem hbound)
  obtain rfl : Task.givenUp = t := Option.some.inj (hi.symm.trans ht)
  cases hstands

/-- The task of a call that has returned is finished. -/
theorem finished_of_done (h : Simulates outer c d) {a : α} (hi : c.calls[i]? = some (.done a)) :
    d.tasks[i]? = some (.finished a) := by
  obtain ⟨t, ht, hstands⟩ := h.task hi
  cases hstands with
  | waiting q hscript => cases hscript
  | active q held hscript => cases q <;> cases hscript
  | finished b hscript =>
    cases hscript
    exact ht

/-- One call and its task go on, while no other call has the outer lock. -/
theorem change (h : Simulates outer c d) {d' : Shared σ α} {q q' : Script σ α} {t t' : Task σ α}
    (hi : c.calls[i]? = some q) (ht : d.tasks[i]? = some t)
    (hothers : ∀ j, j ≠ i → c.holder outer ≠ some j) (hcalls : c'.calls = c.calls.set i q')
    (htasks : d'.tasks = d.tasks.set i t') (hstands : Stands outer c'.holder i q' t')
    (hholder : ∀ j, c'.holder outer = some j → j = i ∧ ∃ rest, t' = .active rest)
    (hclear : c'.holder outer = none → ∀ l, c'.holder l = none)
    (hstate : d'.state = c'.state) (hturns : d'.turns = c'.order outer) :
    Simulates outer c' d' where
  state := hstate
  length := by rw [hcalls, htasks, List.length_set, List.length_set, h.length]
  task {j x} hj := by
    rw [hcalls] at hj
    rw [htasks]
    by_cases hij : i = j
    · subst hij
      rw [List.getElem?_set_self (List.getElem?_eq_some_iff.mp hi).1] at hj
      rw [List.getElem?_set_self (List.getElem?_eq_some_iff.mp ht).1]
      obtain rfl := Option.some.inj hj
      exact ⟨t', rfl, hstands⟩
    · rw [List.getElem?_set_ne hij] at hj ⊢
      obtain ⟨t, ht, hstands⟩ := h.task hj
      exact ⟨t, ht, hstands.other (hothers j (Ne.symm hij))⟩
  holding {j} hj := by
    obtain ⟨rfl, rest, rfl⟩ := hholder j hj
    exact ⟨rest, by rw [htasks, List.getElem?_set_self (List.getElem?_eq_some_iff.mp ht).1]⟩
  clear := hclear
  turns := hturns

/-- The call that has the outer lock, or gets it, goes on under it. -/
theorem go (h : Simulates outer c d) {d' : Shared σ α} {script q : Script σ α} {t : Task σ α}
    {held : List Lock} (hi : c.calls[i]? = some script) (ht : d.tasks[i]? = some t)
    (hbefore : ∀ j, c.holder outer = some j → j = i)
    (hcalls : c'.calls = c.calls.set i (q.bind (.leave outer)))
    (htasks : d'.tasks = d.tasks.set i (.active q.procedure))
    (hq : Inside outer c'.holder i held q) (hstate : d'.state = c'.state)
    (hturns : d'.turns = c'.order outer) : Simulates outer c' d' := by
  refine h.change hi ht (fun j hj hheld => hj (hbefore j hheld)) hcalls htasks
    (.active q held rfl hq) (fun j hj => ?_) (fun hnone => ?_) hstate hturns
  · rw [hq.owns] at hj
    exact ⟨(Option.some.inj hj).symm, _, rfl⟩
  · rw [hq.owns] at hnone
    cases hnone

/-- A call gets the outer lock. -/
theorem enter (h : Simulates outer c d) {q : Script σ α}
    (hi : c.calls[i]? = some (.under outer q)) (ht : d.tasks[i]? = some (.waiting q.procedure))
    (hq : q.Balanced outer [] []) (hfree : c.holder outer = none) :
    ∃ d', d.step? (.enter i) = some d' ∧
      Simulates outer (c.grant outer i (q.bind (.leave outer))) d' := by
  have hmove : d.step? (.enter i)
      = some { d.place i (.active q.procedure) with turns := d.turns ++ [i] } := by
    simp only [Shared.step?, ht, if_pos (h.isFree_iff.mpr hfree)]
  have hinside : Inside outer (c.grant outer i (q.bind (.leave outer))).holder i [] q := by
    refine ⟨hq, List.nodup_singleton outer, ?_, fun l hl => ?_⟩
    · rw [holder_grant, Function.update_self]
    · rw [holder_grant, Function.update_of_ne hl, h.clear hfree, if_neg List.not_mem_nil]
  refine ⟨_, hmove, h.go hi ht (fun j hj => ?_) rfl rfl hinside h.state ?_⟩
  · rw [hfree] at hj
    cases hj
  · rw [order_grant, if_pos rfl]
    exact congrArg (· ++ [i]) h.turns

/-- A call gives the outer lock back. -/
theorem finish (h : Simulates outer c d) {a : α} (hi : c.calls[i]? = some (.leave outer a))
    (ht : d.tasks[i]? = some (.active (.done a)))
    (hq : Inside outer c.holder i [] (.done a : Script σ α)) :
    ∃ d', d.step? (.advance i) = some d' ∧ Simulates outer (c.giveBack outer i (.done a)) d' := by
  have hmove : d.step? (.advance i) = some (d.place i (.finished a)) := by
    simp only [Shared.step?, ht]
  refine ⟨_, hmove, h.change hi ht (fun j hj hheld => hj (hq.eq_of_outer hheld)) rfl rfl
    (.finished a rfl) (fun j hj => ?_) (fun _ l => ?_) h.state h.turns⟩
  · rw [holder_giveBack, Function.update_self] at hj
    cases hj
  · rw [holder_giveBack]
    by_cases hl : l = outer
    · rw [hl, Function.update_self]
    · rw [Function.update_of_ne hl, hq.inner l hl, if_neg List.not_mem_nil]

/-- A call under the outer lock changes the state. -/
theorem advance (h : Simulates outer c d) {act : σ → σ} {next : σ → Script σ α}
    {held : List Lock} (hi : c.calls[i]? = some ((Script.step act next).bind (.leave outer)))
    (ht : d.tasks[i]? = some (.active (Script.step act next).procedure))
    (hq : Inside outer c.holder i held (.step act next)) :
    ∃ d', d.step? (.advance i) = some d' ∧
      Simulates outer { c.place i ((next c.state).bind (.leave outer)) with state := act c.state }
        d' := by
  have hmove : d.step? (.advance i)
      = some { d.place i (.active (next d.state).procedure) with state := act d.state } := by
    simp only [Shared.step?, ht, Script.procedure]
  rw [h.state] at hmove
  exact ⟨_, hmove, h.go hi ht (fun j => hq.eq_of_outer) rfl rfl
    ⟨hq.balanced c.state, hq.nodup, hq.owns, hq.inner⟩ rfl h.turns⟩

/-- It takes an inner lock. -/
theorem take (h : Simulates outer c d) {l : Lock} {q : Script σ α} {held : List Lock}
    (hi : c.calls[i]? = some ((Script.acquire l q).bind (.leave outer)))
    (ht : d.tasks[i]? = some (.active q.procedure))
    (hq : Inside outer c.holder i held (.acquire l q)) :
    Simulates outer (c.grant l i (q.bind (.leave outer))) d := by
  obtain ⟨hl, hnew, hbalanced⟩ := hq.balanced
  have hinside : Inside outer (c.grant l i (q.bind (.leave outer))).holder i (l :: held) q := by
    refine ⟨hbalanced, ?_, ?_, fun k hk => ?_⟩
    · have hnodup := hq.nodup
      simp only [List.nodup_cons, List.mem_cons, not_or] at hnodup ⊢
      exact ⟨⟨hl.symm, hnodup.1⟩, hnew, hnodup.2⟩
    · rw [holder_grant, Function.update_of_ne hl.symm, hq.owns]
    · rw [holder_grant]
      by_cases hkl : k = l
      · rw [hkl, Function.update_self, if_pos List.mem_cons_self]
      · rw [Function.update_of_ne hkl, hq.inner k hk]
        simp [hkl]
  refine h.go hi ht (fun j => hq.eq_of_outer) rfl (set_eq_self ht).symm hinside h.state ?_
  rw [order_grant, if_neg hl, List.append_nil, h.turns]

/-- It gives the innermost lock back. -/
theorem giveBack (h : Simulates outer c d) {l : Lock} {q : Script σ α} {held : List Lock}
    (hi : c.calls[i]? = some ((Script.release l q).bind (.leave outer)))
    (ht : d.tasks[i]? = some (.active q.procedure))
    (hq : Inside outer c.holder i held (.release l q)) :
    Simulates outer (c.giveBack l i (q.bind (.leave outer))) d := by
  obtain ⟨rest, rfl, hbalanced⟩ := hq.balanced
  have hnodup := hq.nodup
  simp only [List.nodup_cons, List.mem_cons, not_or] at hnodup
  obtain ⟨⟨hl, houter⟩, hlast, hrest⟩ := hnodup
  have hinside : Inside outer (c.giveBack l i (q.bind (.leave outer))).holder i rest q := by
    refine ⟨hbalanced, List.nodup_cons.mpr ⟨houter, hrest⟩, ?_, fun k hk => ?_⟩
    · rw [holder_giveBack, Function.update_of_ne hl, hq.owns]
    · rw [holder_giveBack]
      by_cases hkl : k = l
      · rw [hkl, Function.update_self, if_neg hlast]
      · rw [Function.update_of_ne hkl, hq.inner k hk]
        simp [hkl]
  exact h.go hi ht (fun j => hq.eq_of_outer) rfl (set_eq_self ht).symm hinside h.state h.turns

/-- **A step of a call is a move of its task**, or an inner lock is taken or given back, of which
the tasks know nothing. No task is ever given up. -/
theorem does (h : Simulates outer c d) (hdoes : c.Does i c') :
    ∃ d', (d' = d ∨ ∃ m, (∀ j, m ≠ .giveUp j) ∧ d.step? m = some d') ∧
      Simulates outer c' d' := by
  cases hdoes with
  | @step act next hi =>
    obtain ⟨t, ht, hstands⟩ := h.task hi
    cases hstands with
    | waiting q hscript => cases hscript
    | finished a hscript => cases hscript
    | active q held hscript hq =>
      -- only what begins with a step itself can begin with one when it is followed by `leave`
      cases q <;> cases hscript
      obtain ⟨d', hmove, hd'⟩ := h.advance hi ht hq
      exact ⟨d', .inr ⟨.advance i, nofun, hmove⟩, hd'⟩
  | @acquire l q hi hfree =>
    obtain ⟨t, ht, hstands⟩ := h.task hi
    cases hstands with
    | waiting q hscript hq =>
      cases hscript
      obtain ⟨d', hmove, hd'⟩ := h.enter hi ht hq hfree
      exact ⟨d', .inr ⟨.enter i, nofun, hmove⟩, hd'⟩
    | finished a hscript => cases hscript
    | active q held hscript hq =>
      cases q <;> cases hscript
      exact ⟨d, .inl rfl, h.take hi ht hq⟩
  | @release l q hi hheld =>
    obtain ⟨t, ht, hstands⟩ := h.task hi
    cases hstands with
    | waiting q hscript => cases hscript
    | finished a hscript => cases hscript
    | active q held hscript hq =>
      cases q with
      | done a =>
        -- nothing is left but to give the outer lock back
        cases hscript
        obtain rfl : held = [] := hq.balanced
        obtain ⟨d', hmove, hd'⟩ := h.finish hi ht hq
        exact ⟨d', .inr ⟨.advance i, nofun, hmove⟩, hd'⟩
      | release k q =>
        cases hscript
        exact ⟨d, .inl rfl, h.giveBack hi ht hq⟩
      | step act next => cases hscript
      | acquire k q => cases hscript

/-- **Unless all calls have returned, some call can go on**: the one that has the outer lock, for
the inner locks are free when it wants them, or else anyone who waits for it. -/
theorem progress (h : Simulates outer c d) {q : Script σ α} (hi : c.calls[i]? = some q)
    (hq : ∀ a, q ≠ .done a) : ∃ j c', c.Does j c' := by
  cases hholder : c.holder outer with
  | none =>
    obtain ⟨t, ht, hstands⟩ := h.task hi
    cases hstands with
    | waiting q hscript =>
      rw [hscript] at hi
      exact ⟨i, _, .acquire hi hholder⟩
    | active q held hscript hq =>
      rw [hq.owns] at hholder
      cases hholder
    | finished a hscript => exact absurd hscript (hq a)
  | some j =>
    obtain ⟨rest, hj⟩ := h.holding hholder
    obtain ⟨hbound, -⟩ := List.getElem?_eq_some_iff.mp hj
    rw [h.length] at hbound
    have hcall := List.getElem?_eq_getElem hbound
    obtain ⟨t, ht, hstands⟩ := h.task hcall
    obtain rfl : Task.active rest = t := Option.some.inj (hj.symm.trans ht)
    cases hstands with
    | active p held hscript hp =>
      rw [hscript] at hcall
      cases p with
      | done a => exact ⟨j, _, .release hcall hholder⟩
      | step act next => exact ⟨j, _, .step hcall⟩
      | acquire l p =>
        obtain ⟨hl, hnew, -⟩ := hp.balanced
        exact ⟨j, _, .acquire hcall (by rw [hp.inner l hl, if_neg hnew])⟩
      | release l p =>
        obtain ⟨held', rfl, -⟩ := hp.balanced
        have hl : l ≠ outer := fun hl => (List.nodup_cons.mp hp.nodup).1 (hl ▸ List.mem_cons_self)
        exact ⟨j, _, .release hcall (by rw [hp.inner l hl, if_pos List.mem_cons_self])⟩

end Simulates

theorem simulates_create (s : σ) {scripts : List (Script σ α)}
    (h : ∀ q ∈ scripts, q.Balanced outer [] []) :
    Simulates outer (create s (scripts.map (.under outer)))
      (.create s (scripts.map Script.procedure)) where
  state := rfl
  length := by simp [Shared.create, create]
  task {i q} hi := by
    rw [create, List.getElem?_map, Option.map_eq_some_iff] at hi
    obtain ⟨p, hp, rfl⟩ := hi
    refine ⟨.waiting p.procedure, ?_, .waiting p rfl (h p (List.mem_of_getElem? hp))⟩
    simp [Shared.create, hp]
  holding := nofun
  clear _ _ := rfl
  turns := rfl

/-- **Whatever course the calls take, tasks that take turns take one to match.** -/
theorem Simulates.run (h : Simulates outer c d) (steps : List ℕ) :
    ∃ moves : List Shared.Move, (∀ j, .giveUp j ∉ moves) ∧
      Simulates outer (c.run steps) (d.run moves) := by
  induction steps generalizing c d with
  | nil => exact ⟨[], fun _ => List.not_mem_nil, h⟩
  | cons i steps ih =>
    have hcons : c.run (i :: steps) = ((c.step? i).getD c).run steps := rfl
    rw [hcons]
    cases hstep : c.step? i with
    | none => exact ih h
    | some c' =>
      obtain ⟨d', hmove, hd'⟩ := h.does (step?_eq_some_iff.mp hstep)
      obtain ⟨moves, hmoves, hrun⟩ := ih hd'
      rcases hmove with rfl | ⟨m, hm, hmove⟩
      · exact ⟨moves, hmoves, hrun⟩
      · refine ⟨m :: moves, fun j hj => ?_, ?_⟩
        · rcases List.mem_cons.mp hj with hj | hj
          · exact hm j hj.symm
          · exact hmoves j hj
        · rw [Shared.run_cons, hmove]
          exact hrun

end Locked

/-! ### Calls in order -/

/-- What comes of calls that are made one after the other, given by their numbers. -/
def inOrder (f : κ → σ → α × σ) (calls : List κ) : List ℕ → σ → List (ℕ × α) × σ
  | [], s => ([], s)
  | i :: order, s =>
    match calls[i]? with
    | none => inOrder f calls order s
    | some k =>
      ((i, (f k s).1) :: (inOrder f calls order (f k s).2).1, (inOrder f calls order (f k s).2).2)

section InOrder

variable {f g : κ → σ → α × σ} {calls : List κ}

theorem inOrder_append (f : κ → σ → α × σ) (calls : List κ) (order order' : List ℕ) (s : σ) :
    inOrder f calls (order ++ order') s =
      ((inOrder f calls order s).1 ++ (inOrder f calls order' (inOrder f calls order s).2).1,
        (inOrder f calls order' (inOrder f calls order s).2).2) := by
  induction order generalizing s with
  | nil => rfl
  | cons i order ih =>
    rw [List.cons_append, inOrder, inOrder]
    split
    · exact ih s
    · rw [ih, List.cons_append]

theorem inOrder_map (f : κ → σ → α × σ) {ι : Type} (g : ι → κ) (calls : List ι) (order : List ℕ)
    (s : σ) : inOrder f (calls.map g) order s = inOrder (fun k => f (g k)) calls order s := by
  induction order generalizing s with
  | nil => rfl
  | cons i order ih =>
    rw [inOrder, inOrder, List.getElem?_map]
    cases calls[i]? with
    | none => exact ih s
    | some k => simp only [Option.map_some, ih]

/-- Calls that do the same to all states that they can meet come to the same. -/
theorem inOrder_congr {P : σ → Prop} (h : ∀ k s, P s → f k s = g k s ∧ P (g k s).2) {s : σ}
    (hs : P s) (calls : List κ) (order : List ℕ) :
    inOrder f calls order s = inOrder g calls order s := by
  induction order generalizing s with
  | nil => rfl
  | cons i order ih =>
    rw [inOrder, inOrder]
    split
    · exact ih hs
    · rename_i k _
      obtain ⟨hsame, hkept⟩ := h k s hs
      rw [hsame, ih hkept]

end InOrder

namespace Shared

/-- Procedures that were run one after the other, and left the state. -/
def RanInOrder (ps : List (Procedure σ α)) (s : σ) (past : List (ℕ × Option α)) (s' : σ) : Prop :=
  ∃ results : List (ℕ × α), past = results.map (fun r => (r.1, some r.2)) ∧
    inOrder Procedure.run ps (results.map Prod.fst) s = (results, s')

theorem RanInOrder.eq {ps : List (Procedure σ α)} {s s' : σ} {past : List (ℕ × Option α)}
    (h : RanInOrder ps s past s') :
    past = (inOrder Procedure.run ps (past.map Prod.fst) s).1.map (fun r => (r.1, some r.2)) ∧
      s' = (inOrder Procedure.run ps (past.map Prod.fst) s).2 := by
  obtain ⟨results, rfl, hrun⟩ := h
  have hnumbers : (results.map fun r => (r.1, some r.2)).map Prod.fst = results.map Prod.fst := by
    rw [List.map_map]
    rfl
  rw [hnumbers, hrun]
  exact ⟨rfl, rfl⟩

/-- A result of the past is one of those that come in order. -/
theorem RanInOrder.mem {ps : List (Procedure σ α)} {s s' : σ} {past : List (ℕ × Option α)}
    (h : RanInOrder ps s past s') {i : ℕ} {a : α} (hi : (i, some a) ∈ past) :
    (i, a) ∈ (inOrder Procedure.run ps (past.map Prod.fst) s).1 := by
  rw [h.eq.1] at hi
  obtain ⟨r, hr, heq⟩ := List.mem_map.mp hi
  cases heq
  exact hr

theorem RanInOrder.concat {ps : List (Procedure σ α)} {s s' : σ} {past : List (ℕ × Option α)}
    (h : RanInOrder ps s past s') {i : ℕ} {p : Procedure σ α} (hp : ps[i]? = some p) :
    RanInOrder ps s (past ++ [(i, some (p.run s').1)]) (p.run s').2 := by
  obtain ⟨results, rfl, hrun⟩ := h
  refine ⟨results ++ [(i, (p.run s').1)], by rw [List.map_append]; rfl, ?_⟩
  have hone : inOrder Procedure.run ps [i] s' = ([(i, (p.run s').1)], (p.run s').2) := by
    rw [inOrder, hp]
    rfl
  rw [List.map_append, inOrder_append, hrun]
  exact congrArg (fun x => (results ++ x.1, x.2)) hone

end Shared

/-- **Tasks that take turns come to the same as their procedures in the order of their turns.** -/
theorem Shared.run_inOrder (s : σ) (ps : List (Procedure σ α)) {moves : List Shared.Move}
    (hmoves : ∀ i, .giveUp i ∉ moves) :
    ((create s ps).run moves).Kept ps (RanInOrder ps s) fun _ _ _ => True := by
  refine run_keeps ⟨[], rfl, rfl⟩ (fun hp _ hpast => Procedure.keeps_of_run (hpast.concat hp)) ?_
  intro _ i _ hi
  exact absurd hi (hmoves i)

namespace Shared

variable {c : Shared σ α}

/-- What has come of tasks that take turns, none of which is given up, is what comes of their
procedures in the order of their turns. So is the state while nobody has the turn. -/
theorem Kept.inOrder {ps : List (Procedure σ α)} {s : σ}
    (h : c.Kept ps (RanInOrder ps s) fun _ _ _ => True)
    (hkept : ∀ i : ℕ, c.tasks[i]? ≠ some .givenUp) :
    (∀ i a, c.tasks[i]? = some (.finished a) →
        (i, a) ∈ (inOrder Procedure.run ps c.turns s).1) ∧
      (c.isFree → c.state = (Telemetry.inOrder Procedure.run ps c.turns s).2) := by
  by_cases hfree : c.isFree
  · have hran : RanInOrder ps s c.past c.state := h.free hfree
    rw [h.orderly.turns_of_isFree hkept hfree]
    exact ⟨fun i a hi => hran.mem (h.orderly.mem_past hi), fun _ => hran.eq.2⟩
  · obtain ⟨j, rest, hj⟩ : ∃ j, c.HasTurn j := by
      by_contra hnone
      exact hfree (isFree_iff.mpr fun i hi => hnone ⟨i, hi⟩)
    -- the task that has the turn is run to its end
    have hran : RanInOrder ps s (c.past ++ [(j, some (rest.run c.state).1)])
        (rest.run c.state).2 := (h.active hj).run
    have hturns : c.turns = (c.past ++ [(j, some (rest.run c.state).1)]).map Prod.fst := by
      rw [h.orderly.turns_of_active hkept hj, List.map_append]
      rfl
    rw [hturns]
    refine ⟨fun i a hi => hran.mem (List.mem_append_left _ (h.orderly.mem_past hi)), ?_⟩
    exact fun hfree' => absurd hfree' hfree

end Shared

namespace Locked

variable {outer : Lock}

/-- Calls that take the outer lock come to the same as calls that are made one after the other. -/
structure Serializes (outer : Lock) (f : κ → σ → α × σ) (calls : List κ) (s : σ)
    (c : Locked σ α) : Prop where
  /-- No call gets the lock twice. -/
  once : (c.order outer).Nodup
  bound : ∀ i ∈ c.order outer, i < calls.length
  /-- A call that has returned has got the lock, and it returns what it returns in order. -/
  results : ∀ i a, c.calls[i]? = some (.done a) →
    (i, a) ∈ (inOrder f calls (c.order outer) s).1
  /-- While nobody has the lock, the state is what the calls leave in order. -/
  state : c.holder outer = none → c.state = (inOrder f calls (c.order outer) s).2
  /-- When all calls have returned, each has had the lock, and all locks are free. -/
  complete : (∀ i < calls.length, ∃ a, c.calls[i]? = some (.done a)) →
    (c.order outer).Perm (List.range calls.length) ∧ ∀ l, c.holder l = none
  /-- Until then, some call can go on. -/
  progress : (∃ i < calls.length, ∀ a, c.calls[i]? ≠ some (.done a)) → ∃ i, (c.step? i).isSome

/-- **Whatever course the calls take**, they come to the same as if they were made one after the
other, in the order in which they get the lock. -/
theorem serializes_run {f : κ → σ → α × σ} {script : κ → Script σ α} {P : σ → Prop}
    (hbalanced : ∀ k, (script k).Balanced outer [] [])
    (hrun : ∀ k s, P s → (script k).run s = f k s ∧ P (f k s).2) {s : σ} (hs : P s)
    (calls : List κ) (steps : List ℕ) :
    Serializes outer f calls s
      ((create s (calls.map fun k => .under outer (script k))).run steps) := by
  have hcreate : Simulates outer (create s (calls.map fun k => .under outer (script k)))
      (.create s ((calls.map script).map Script.procedure)) := by
    have hscripts : ∀ q ∈ calls.map script, q.Balanced outer [] [] := by
      intro q hq
      obtain ⟨k, -, rfl⟩ := List.mem_map.mp hq
      exact hbalanced k
    have h := simulates_create s hscripts
    rwa [List.map_map] at h
  obtain ⟨moves, hmoves, h⟩ := hcreate.run steps
  have hkept := Shared.run_inOrder s ((calls.map script).map Script.procedure) hmoves
  obtain ⟨hresults, hstate⟩ := hkept.inOrder h.ne_givenUp
  have hsame : ∀ order, inOrder Procedure.run ((calls.map script).map Script.procedure) order s
      = inOrder f calls order s := by
    intro order
    rw [inOrder_map, inOrder_map]
    refine inOrder_congr (fun k s hs => ?_) hs calls order
    rw [Script.run_procedure]
    exact hrun k s hs
  rw [h.turns, hsame] at hresults hstate
  generalize hc : (create s (calls.map fun k => .under outer (script k))).run steps = c at *
  have hlength : c.calls.length = calls.length := by
    rw [← hc, length_run]
    exact List.length_map _
  have horder : ∀ i, i ∈ c.order outer → i < calls.length := by
    intro i hi
    rw [← hlength, ← h.length]
    exact hkept.orderly.bound (h.turns.symm ▸ hi)
  have honce : (c.order outer).Nodup := h.turns ▸ hkept.orderly.nodup
  refine ⟨honce, horder, fun i a hi => hresults i a (h.finished_of_done hi), fun hfree => ?_,
    fun hall => ?_, ?_⟩
  · rw [← h.state]
    exact hstate (h.isFree_iff.mpr hfree)
  · refine ⟨(List.perm_ext_iff_of_nodup honce List.nodup_range).mpr fun i => ?_, ?_⟩
    · rw [List.mem_range]
      refine ⟨horder i, fun hi => ?_⟩
      obtain ⟨a, ha⟩ := hall i hi
      exact h.turns ▸ hkept.orderly.finished (h.finished_of_done ha)
    · -- who has the outer lock has not returned
      refine h.clear (Option.eq_none_iff_forall_ne_some.mpr fun i hi => ?_)
      obtain ⟨rest, hrest⟩ := h.holding hi
      obtain ⟨hbound, -⟩ := List.getElem?_eq_some_iff.mp hrest
      rw [h.length, hlength] at hbound
      obtain ⟨a, ha⟩ := hall i hbound
      rw [h.finished_of_done ha] at hrest
      cases hrest
  · rintro ⟨i, hi, hnot⟩
    have hcall := List.getElem?_eq_getElem (hlength.symm ▸ hi)
    obtain ⟨j, c', hdoes⟩ := h.progress hcall fun a ha => hnot a (ha ▸ hcall)
    exact ⟨j, by rw [step?_eq_some_iff.mpr hdoes]; rfl⟩

end Locked
end Telemetry
