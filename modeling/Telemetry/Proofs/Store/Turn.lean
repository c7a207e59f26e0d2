import Telemetry.Store.Turn
import Mathlib.Data.List.Nodup

/-!
# What tasks that take turns keep

Since one task at most has the turn, its steps change the state as if it were alone, and what is
known of one procedure from its beginning to its end holds in any course of moves: the state that
a task finds is the one its predecessors left, and whoever looks at the state while the task has
the turn sees it between two of the task's own steps.

## Main definitions

* `Telemetry.Procedure.Keeps` — what holds wherever a procedure stands, and in the end
* `Telemetry.Procedure.Lockstep` — a procedure goes the same way from two states
* `Telemetry.Shared.HasTurn` — it is the turn of a task
* `Telemetry.Shared.past` — what came of those who had the turn, in the order of their turns
* `Telemetry.Shared.Orderly` — the invariant of tasks that take turns

## Main results

* `Telemetry.Shared.Orderly.exclusive` — at most one task has the turn
* `Telemetry.Shared.run_keeps` — from one procedure to all courses of moves
-/

namespace Telemetry

variable {σ α β : Type}

namespace Procedure

/-- One thing holds of the state wherever the procedure stands, and another one of its result and
the state it ends in. -/
def Keeps (mid : σ → Prop) (final : α → σ → Prop) : Procedure σ α → σ → Prop
  | .done a, s => mid s ∧ final a s
  | .step act next, s => mid s ∧ Keeps mid final (next s) (act s)

section Keeps

variable {mid mid' : σ → Prop} {final final' : α → σ → Prop} {p : Procedure σ α} {s : σ}

theorem keeps_call {f : σ → β × σ} {next : β → Procedure σ α} :
    (call f next).Keeps mid final s ↔ mid s ∧ (next (f s).1).Keeps mid final (f s).2 := Iff.rfl

theorem Keeps.now (h : p.Keeps mid final s) : mid s := by
  cases p with
  | done a => exact h.1
  | step act next => exact h.1

theorem Keeps.imp (h : p.Keeps mid final s) (hmid : ∀ s, mid s → mid' s)
    (hfinal : ∀ a s, final a s → final' a s) : p.Keeps mid' final' s := by
  induction p generalizing s with
  | done a => exact ⟨hmid s h.1, hfinal a s h.2⟩
  | step act next ih => exact ⟨hmid s h.1, ih s h.2⟩

/-- It holds wherever the procedure is cut off. -/
theorem Keeps.stateAfter (h : p.Keeps mid final s) (k : ℕ) : mid (p.stateAfter k s) := by
  induction k generalizing p s with
  | zero => exact (stateAfter_zero p s).symm ▸ h.now
  | succ k ih =>
    cases p with
    | done a => exact h.1
    | step act next => exact ih h.2

/-- What holds of the result of all steps is kept by them. -/
theorem keeps_of_run (h : final (p.run s).1 (p.run s).2) : p.Keeps (fun _ => True) final s := by
  induction p generalizing s with
  | done a => exact ⟨trivial, h⟩
  | step act next ih => exact ⟨trivial, ih s h⟩

theorem Keeps.run (h : p.Keeps mid final s) : final (p.run s).1 (p.run s).2 := by
  induction p generalizing s with
  | done a => exact h.2
  | step act next ih => exact ih s h.2

end Keeps

section Lockstep

variable {R : σ → σ → Prop} {p : Procedure σ α} {s e : σ}

/-- A procedure goes the same way from two states, which stay related all along. -/
def Lockstep (R : σ → σ → Prop) : Procedure σ α → σ → σ → Prop
  | .done _, s, e => R s e
  | .step act next, s, e => R s e ∧ next e = next s ∧ (next s).Lockstep R (act s) (act e)

theorem lockstep_call {f : σ → β × σ} {next : β → Procedure σ α} (h : R s e)
    (hsame : (f e).1 = (f s).1) (hrest : (next (f s).1).Lockstep R (f s).2 (f e).2) :
    (call f next).Lockstep R s e :=
  ⟨h, congrArg next hsame, hrest⟩

theorem Lockstep.now (h : p.Lockstep R s e) : R s e := by
  cases p with
  | done a => exact h
  | step act next => exact h.1

theorem Lockstep.run (h : p.Lockstep R s e) :
    (p.run e).1 = (p.run s).1 ∧ R (p.run s).2 (p.run e).2 := by
  induction p generalizing s e with
  | done a => exact ⟨rfl, h⟩
  | step act next ih =>
    obtain ⟨-, hnext, hrest⟩ := h
    simpa only [Procedure.run, hnext] using ih s hrest

theorem Lockstep.stateAfter (h : p.Lockstep R s e) (k : ℕ) :
    R (p.stateAfter k s) (p.stateAfter k e) := by
  induction k generalizing p s e with
  | zero => simpa only [stateAfter_zero] using h.now
  | succ k ih =>
    cases p with
    | done a => exact h
    | step act next =>
      obtain ⟨-, hnext, hrest⟩ := h
      simpa only [Procedure.stateAfter, hnext] using ih hrest

end Lockstep

end Procedure

/-- What came of a task that is over: its result, or nothing if it was given up. -/
def Task.outcome? : Task σ α → Option (Option α)
  | .finished a => some (some a)
  | .givenUp => some none
  | _ => none

namespace Shared

variable {c c' : Shared σ α} {i j : ℕ} {m : Move}

/-! ### Moves -/

/-- The moves that are possible, and what they lead to. -/
inductive Happens (c : Shared σ α) : Move → Shared σ α → Prop where
  | enter {i p} (hi : c.tasks[i]? = some (.waiting p)) (hfree : c.isFree) :
      Happens c (.enter i) { c.place i (.active p) with turns := c.turns ++ [i] }
  | advance {i act next} (hi : c.tasks[i]? = some (.active (.step act next))) :
      Happens c (.advance i) { c.place i (.active (next c.state)) with state := act c.state }
  | finish {i a} (hi : c.tasks[i]? = some (.active (.done a))) :
      Happens c (.advance i) (c.place i (.finished a))
  /-- A task is given up before its turn. -/
  | leave {i p} (hi : c.tasks[i]? = some (.waiting p)) :
      Happens c (.giveUp i) (c.place i .givenUp)
  /-- The task that has the turn is given up. -/
  | abandon {i rest} (hi : c.tasks[i]? = some (.active rest)) :
      Happens c (.giveUp i) (c.place i .givenUp)

theorem happens_of_step? (h : c.step? m = some c') : c.Happens m c' := by
  cases m with
  | enter i =>
    simp only [step?] at h
    split at h
    · rename_i p hi
      split at h
      · cases h
        exact .enter hi ‹_›
      · cases h
    · cases h
  | advance i =>
    simp only [step?] at h
    split at h
    · cases h
      exact .finish ‹_›
    · cases h
      exact .advance ‹_›
    · cases h
  | giveUp i =>
    simp only [step?] at h
    split at h
    · cases h
      exact .leave ‹_›
    · cases h
      exact .abandon ‹_›
    · cases h

/-- What holds in the beginning, and what every move that happens keeps, holds after any course of
moves. -/
theorem run_induction {motive : Shared σ α → Prop} {moves : List Move} (hbegin : motive c)
    (hstep : ∀ {m c c'}, m ∈ moves → Happens c m c' → motive c → motive c') :
    motive (c.run moves) := by
  induction moves generalizing c with
  | nil => exact hbegin
  | cons m moves ih =>
    have hrest : motive ((c.step? m).getD c) → motive (c.run (m :: moves)) :=
      fun h => ih h fun hm => hstep (List.mem_cons_of_mem m hm)
    cases h : c.step? m with
    | none => exact hrest (h ▸ hbegin)
    | some c' => exact hrest (h ▸ hstep List.mem_cons_self (happens_of_step? h) hbegin)

/-! ### Tasks and places -/

theorem getElem?_place {t : Task σ α} (h : c.tasks[i]? = some t) (t' : Task σ α) (j : ℕ) :
    (c.place i t').tasks[j]? = if i = j then some t' else c.tasks[j]? := by
  obtain ⟨hi, -⟩ := List.getElem?_eq_some_iff.mp h
  rw [place, List.getElem?_set]
  split_ifs <;> rfl

theorem getElem?_place_self {t : Task σ α} (h : c.tasks[i]? = some t) (t' : Task σ α) :
    (c.place i t').tasks[i]? = some t' := by
  rw [getElem?_place h, if_pos rfl]

/-- It is the turn of a task. -/
def HasTurn (c : Shared σ α) (i : ℕ) : Prop := ∃ rest, c.tasks[i]? = some (.active rest)

theorem any_isActive_iff : c.tasks[i]?.any Task.isActive ↔ c.HasTurn i := by
  rw [HasTurn]
  rcases c.tasks[i]? with _ | _ | _ | _ | _ <;> simp [Task.isActive]

instance (c : Shared σ α) (i : ℕ) : Decidable (c.HasTurn i) := decidable_of_iff _ any_isActive_iff

/-- A task after another one or itself has moved. -/
theorem eq_or_of_place {t t' x : Task σ α} (hi : c.tasks[i]? = some t)
    (hj : (c.place i t').tasks[j]? = some x) : i = j ∧ t' = x ∨ i ≠ j ∧ c.tasks[j]? = some x := by
  rw [getElem?_place hi] at hj
  split_ifs at hj with hij
  · exact .inl ⟨hij, Option.some.inj hj⟩
  · exact .inr ⟨hij, hj⟩

theorem isFree_iff : c.isFree ↔ ∀ i, ¬ c.HasTurn i := by
  simp only [isFree, Bool.not_eq_true', List.any_eq_false]
  constructor
  · rintro h i ⟨rest, hi⟩
    exact h _ (List.mem_of_getElem? hi) rfl
  · intro h t ht
    obtain ⟨i, hi⟩ := List.getElem?_of_mem ht
    cases t with
    | active rest => exact absurd ⟨rest, hi⟩ (h i)
    | waiting p => exact Bool.false_ne_true
    | finished a => exact Bool.false_ne_true
    | givenUp => exact Bool.false_ne_true

/-- A task after one more has joined. -/
theorem eq_or_of_join {p : Procedure σ α} {x : Task σ α}
    (hj : (c.tasks ++ [.waiting p])[j]? = some x) :
    j = c.tasks.length ∧ .waiting p = x ∨ c.tasks[j]? = some x := by
  rcases Nat.lt_trichotomy j c.tasks.length with hlt | heq | hgt
  · rw [List.getElem?_append_left hlt] at hj
    exact .inr hj
  · subst heq
    rw [List.getElem?_concat_length] at hj
    exact .inl ⟨rfl, Option.some.inj hj⟩
  · have hbound := (List.getElem?_eq_some_iff.mp hj).1
    rw [List.length_append, List.length_singleton] at hbound
    exact absurd hbound (Nat.not_lt.mpr hgt)

/-! ### A task alone -/

theorem run_cons (c : Shared σ α) (m : Move) (moves : List Move) :
    c.run (m :: moves) = ((c.step? m).getD c).run moves := rfl

/-- The task that has the turn does all its steps when nobody comes in between. -/
theorem run_advances (p : Procedure σ α) {c : Shared σ α}
    (hi : c.tasks[i]? = some (.active p)) : ∃ k, c.run (List.replicate k (.advance i))
      = { c.place i (.finished (p.run c.state).1) with state := (p.run c.state).2 } := by
  induction p generalizing c with
  | done a =>
    refine ⟨1, ?_⟩
    rw [List.replicate_one, run_cons, step?, hi]
    rfl
  | step act next ih =>
    obtain ⟨k, hk⟩ := ih c.state (c := { c.place i (.active (next c.state)) with
      state := act c.state }) (getElem?_place_self hi _)
    refine ⟨k + 1, ?_⟩
    rw [List.replicate_succ, run_cons, step?, hi]
    refine hk.trans ?_
    simp only [place, List.set_set, Procedure.run]

/-- **Alone a task amounts to its procedure.** -/
theorem run_alone {p : Procedure σ α} (hi : c.tasks[i]? = some (.waiting p)) (hfree : c.isFree) :
    ∃ k, c.run (.enter i :: List.replicate k (.advance i))
      = ⟨(p.run c.state).2, c.tasks.set i (.finished (p.run c.state).1), c.turns ++ [i]⟩ := by
  obtain ⟨k, hk⟩ := run_advances p (c := { c.place i (.active p) with turns := c.turns ++ [i] })
    (getElem?_place_self hi _)
  refine ⟨k, ?_⟩
  rw [run_cons, step?, hi]
  simp only [hfree, if_true, Option.getD_some]
  refine hk.trans ?_
  simp only [place, List.set_set]

/-! ### Who had the turn -/

/-- The number of a task that is over, and what came of it. -/
def record? (c : Shared σ α) (i : ℕ) : Option (ℕ × Option α) :=
  (c.tasks[i]?.bind Task.outcome?).map (i, ·)

/-- What came of those who had the turn, in the order of their turns. -/
def past (c : Shared σ α) : List (ℕ × Option α) := c.turns.filterMap c.record?

/-- The turns follow one another: they are turns of tasks, nobody has the turn twice, those who wait
have not had it, those who are finished have, and whoever has it was the last to get it. -/
structure Orderly (c : Shared σ α) : Prop where
  bound : ∀ {i}, i ∈ c.turns → i < c.tasks.length
  nodup : c.turns.Nodup
  waiting : ∀ {i p}, c.tasks[i]? = some (.waiting p) → i ∉ c.turns
  finished : ∀ {i a}, c.tasks[i]? = some (.finished a) → i ∈ c.turns
  active : ∀ {i rest}, c.tasks[i]? = some (.active rest) → ∃ before, c.turns = before ++ [i]

/-- **At most one task has the turn.** -/
theorem Orderly.exclusive (h : c.Orderly) (hi : c.HasTurn i) (hj : c.HasTurn j) : i = j := by
  obtain ⟨_, hi⟩ := hi
  obtain ⟨_, hj⟩ := hj
  obtain ⟨before, hbefore⟩ := h.active hi
  obtain ⟨before', hbefore'⟩ := h.active hj
  exact (List.append_inj' (hbefore.symm.trans hbefore') rfl).2 |> List.singleton_inj.mp

/-- The past knows of every task that is finished. -/
theorem Orderly.mem_past (h : c.Orderly) {a : α} (hi : c.tasks[i]? = some (.finished a)) :
    (i, some a) ∈ c.past :=
  List.mem_filterMap.mpr ⟨i, h.finished hi, by rw [record?, hi]; rfl⟩

/-- A task that is not over is not of the past. -/
theorem notMem_past {t : Task σ α} (hi : c.tasks[i]? = some t) (ht : t.outcome? = none) :
    i ∉ c.past.map Prod.fst := by
  intro hmem
  obtain ⟨⟨_, o⟩, hpast, rfl⟩ := List.mem_map.mp hmem
  obtain ⟨k, -, hrecord⟩ := List.mem_filterMap.mp hpast
  obtain ⟨o', ho, heq⟩ := Option.map_eq_some_iff.mp hrecord
  cases heq
  rw [hi] at ho
  cases ht.symm.trans ho

section Place

variable {t t' : Task σ α}

theorem record?_place (hi : c.tasks[i]? = some t) (t' : Task σ α) (j : ℕ) :
    (c.place i t').record? j = if i = j then t'.outcome?.map (i, ·) else c.record? j := by
  rw [record?, getElem?_place hi]
  split_ifs with h
  · rw [h]
    rfl
  · rfl

/-- The past stays when a task moves that is not over, or that has not had the turn. -/
theorem past_place (hi : c.tasks[i]? = some t)
    (h : t.outcome? = t'.outcome? ∨ i ∉ c.turns) : (c.place i t').past = c.past := by
  refine List.filterMap_congr fun j hj => ?_
  rw [record?_place hi]
  split_ifs with hij
  · subst hij
    rcases h with h | h
    · rw [record?, hi, ← h]
      rfl
    · exact absurd hj h
  · rfl

theorem past_enter {p : Procedure σ α} (hi : c.tasks[i]? = some (.waiting p)) :
    past { c.place i (.active p) with turns := c.turns ++ [i] } = c.past := by
  have hrecord : (c.place i (.active p)).record? i = none := by
    rw [record?_place hi, if_pos rfl]
    rfl
  have hpast : (c.place i (.active p)).past = c.past := past_place hi (.inl rfl)
  have happend : past { c.place i (.active p) with turns := c.turns ++ [i] }
      = (c.place i (.active p)).past ++ [i].filterMap (c.place i (.active p)).record? :=
    List.filterMap_append
  rw [happend, hpast, List.filterMap_cons_none hrecord]
  exact List.append_nil _

/-- The task that has the turn is not over, so the past ends before it. -/
theorem Orderly.past_settle (h : c.Orderly) {rest : Procedure σ α}
    (hi : c.tasks[i]? = some (.active rest)) {o : Option α} (ho : t'.outcome? = some o) :
    (c.place i t').past = c.past ++ [(i, o)] := by
  obtain ⟨before, hbefore⟩ := h.active hi
  have hnew : i ∉ before := by
    have hnodup := h.nodup
    rw [hbefore, ← List.concat_eq_append, List.nodup_concat] at hnodup
    exact hnodup.1
  have hothers : before.filterMap (c.place i t').record? = before.filterMap c.record? := by
    refine List.filterMap_congr fun j hj => ?_
    rw [record?_place hi, if_neg]
    rintro rfl
    exact hnew hj
  have hturns : (c.place i t').turns = before ++ [i] := hbefore
  have hbefore' : c.record? i = none := by rw [record?, hi]; rfl
  have hafter : (c.place i t').record? i = some (i, o) := by
    rw [record?_place hi, if_pos rfl, ho]
    rfl
  simp [past, hturns, hbefore, List.filterMap_append, hothers, hbefore', hafter]

end Place

/-! ### The invariants -/

theorem orderly_create (s : σ) (ps : List (Procedure σ α)) : (create s ps).Orderly where
  bound h := absurd h List.not_mem_nil
  nodup := List.nodup_nil
  waiting _ := List.not_mem_nil
  finished h := by simp [create] at h
  active h := by simp [create] at h

/-- The order stays when a task moves that does not begin to wait, is not finished without its turn
and does not get the turn. -/
theorem Orderly.place (h : c.Orderly) {t : Task σ α} (hi : c.tasks[i]? = some t) (t' : Task σ α)
    (hwaiting : ∀ p, t' ≠ .waiting p) (hfinished : ∀ a, t' = .finished a → i ∈ c.turns)
    (hactive : ∀ rest, t' = .active rest → ∃ rest', t = .active rest') (s : σ) :
    Orderly { c.place i t' with state := s } where
  bound hj := Nat.lt_of_lt_of_eq (h.bound hj) List.length_set.symm
  nodup := h.nodup
  waiting {j p} hj := by
    obtain ⟨-, heq⟩ | ⟨-, hj⟩ := eq_or_of_place hi hj
    · exact absurd heq (hwaiting p)
    · exact h.waiting hj
  finished {j a} hj := by
    obtain ⟨rfl, heq⟩ | ⟨-, hj⟩ := eq_or_of_place hi hj
    · exact hfinished a heq
    · exact h.finished hj
  active {j rest} hj := by
    obtain ⟨rfl, heq⟩ | ⟨-, hj⟩ := eq_or_of_place hi hj
    · obtain ⟨rest', rfl⟩ := hactive rest heq
      exact h.active hi
    · exact h.active hj

theorem Orderly.enter (h : c.Orderly) {p : Procedure σ α} (hi : c.tasks[i]? = some (.waiting p))
    (hfree : c.isFree) : Orderly { c.place i (.active p) with turns := c.turns ++ [i] } where
  bound {j} hj := by
    refine Nat.lt_of_lt_of_eq ?_ List.length_set.symm
    rcases List.mem_append.mp hj with hj | hj
    · exact h.bound hj
    · obtain rfl := List.mem_singleton.mp hj
      exact (List.getElem?_eq_some_iff.mp hi).1
  nodup := by
    rw [← List.concat_eq_append, List.nodup_concat]
    exact ⟨h.waiting hi, h.nodup⟩
  waiting {j q} hj := by
    obtain ⟨-, ⟨⟩⟩ | ⟨hij, hj⟩ := eq_or_of_place hi hj
    show j ∉ c.turns ++ [i]
    rw [List.mem_append, List.mem_singleton]
    rintro (hmem | rfl)
    · exact h.waiting hj hmem
    · exact hij rfl
  finished {j a} hj := by
    obtain ⟨-, ⟨⟩⟩ | ⟨-, hj⟩ := eq_or_of_place hi hj
    exact List.mem_append_left _ (h.finished hj)
  active {j rest} hj := by
    obtain ⟨rfl, -⟩ | ⟨-, hj⟩ := eq_or_of_place hi hj
    · exact ⟨c.turns, rfl⟩
    · exact absurd ⟨rest, hj⟩ (isFree_iff.mp hfree j)

/-- Someone else changes the state. -/
theorem Orderly.outside (h : c.Orderly) (s : σ) : Orderly { c with state := s } :=
  ⟨h.bound, h.nodup, h.waiting, h.finished, h.active⟩

/-- One more task waits. -/
theorem Orderly.join (h : c.Orderly) (p : Procedure σ α) :
    Orderly { c with tasks := c.tasks ++ [.waiting p] } where
  bound hj := by
    rw [List.length_append]
    exact Nat.lt_of_lt_of_le (h.bound hj) (Nat.le_add_right _ _)
  nodup := h.nodup
  waiting {j q} hj := by
    rcases eq_or_of_join hj with ⟨rfl, -⟩ | hj
    · exact fun hmem => Nat.lt_irrefl _ (h.bound hmem)
    · exact h.waiting hj
  finished hj := by
    rcases eq_or_of_join hj with ⟨-, ⟨⟩⟩ | hj
    exact h.finished hj
  active hj := by
    rcases eq_or_of_join hj with ⟨-, ⟨⟩⟩ | hj
    exact h.active hj

/-- **Every move that happens keeps the order of turns.** -/
theorem Orderly.step (h : c.Orderly) (hm : Happens c m c') : c'.Orderly := by
  cases hm with
  | enter hi hfree => exact h.enter hi hfree
  | advance hi => exact h.place hi (.active _) nofun nofun (fun _ _ => ⟨_, rfl⟩) _
  | finish hi =>
    refine h.place hi (.finished _) nofun (fun _ _ => ?_) nofun c.state
    obtain ⟨before, hbefore⟩ := h.active hi
    rw [hbefore]
    exact List.mem_append_right _ List.mem_cons_self
  | leave hi => exact h.place hi .givenUp nofun nofun nofun c.state
  | abandon hi => exact h.place hi .givenUp nofun nofun nofun c.state

/-! ### Turns that are over -/

/-- A task that is none of those that are given up is finished when its turn is over. -/
theorem Orderly.finished_of_turn (h : c.Orderly) (hkept : ∀ i : ℕ, c.tasks[i]? ≠ some .givenUp)
    {i : ℕ}
    (hi : i ∈ c.turns) (hover : ¬ c.HasTurn i) : ∃ a, c.tasks[i]? = some (.finished a) := by
  obtain ⟨t, ht⟩ : ∃ t, c.tasks[i]? = some t := ⟨_, List.getElem?_eq_getElem (h.bound hi)⟩
  cases t with
  | waiting p => exact absurd hi (h.waiting ht)
  | active rest => exact absurd ⟨rest, ht⟩ hover
  | finished a => exact ⟨a, ht⟩
  | givenUp => exact absurd ht (hkept i)

theorem map_fst_record {is : List ℕ} (h : ∀ i ∈ is, ∃ a, c.tasks[i]? = some (.finished a)) :
    (is.filterMap c.record?).map Prod.fst = is := by
  induction is with
  | nil => rfl
  | cons i is ih =>
    obtain ⟨⟨a, ha⟩, hrest⟩ := List.forall_mem_cons.mp h
    have hrecord : c.record? i = some (i, some a) := by rw [record?, ha]; rfl
    rw [List.filterMap_cons_some hrecord, List.map_cons, ih hrest]

/-- While nobody has the turn, the past has all turns. -/
theorem Orderly.turns_of_isFree (h : c.Orderly) (hkept : ∀ i : ℕ, c.tasks[i]? ≠ some .givenUp)
    (hfree : c.isFree) : c.turns = c.past.map Prod.fst :=
  (map_fst_record fun i hi => h.finished_of_turn hkept hi (isFree_iff.mp hfree i)).symm

/-- Otherwise it has all turns but the last. -/
theorem Orderly.turns_of_active (h : c.Orderly) (hkept : ∀ i : ℕ, c.tasks[i]? ≠ some .givenUp)
    {i : ℕ} {rest : Procedure σ α} (hi : c.tasks[i]? = some (.active rest)) :
    c.turns = c.past.map Prod.fst ++ [i] := by
  obtain ⟨before, hbefore⟩ := h.active hi
  have hnodup := h.nodup
  rw [hbefore, List.nodup_append] at hnodup
  have hover : ∀ j ∈ before, ∃ a, c.tasks[j]? = some (.finished a) := by
    intro j hj
    refine h.finished_of_turn hkept (hbefore ▸ List.mem_append_left _ hj) fun hturn => ?_
    obtain rfl := h.exclusive hturn ⟨rest, hi⟩
    exact hnodup.2.2 j hj j List.mem_cons_self rfl
  have hnone : c.record? i = none := by rw [record?, hi]; rfl
  have hpast : c.past = before.filterMap c.record? := by
    rw [past, hbefore, List.filterMap_append, List.filterMap_cons_none hnone]
    exact List.append_nil _
  rw [hpast, map_fst_record hover, hbefore]

/-! ### What all courses of moves keep -/

/-- What is known at any moment: one thing while nobody has the turn, another one while a task has
it, each in view of what came of the tasks before. -/
structure Kept (ps : List (Procedure σ α)) (idle : List (ℕ × Option α) → σ → Prop)
    (mid : List (ℕ × Option α) → ℕ → σ → Prop) (c : Shared σ α) : Prop where
  orderly : c.Orderly
  waiting : ∀ {i : ℕ} {p : Procedure σ α}, c.tasks[i]? = some (.waiting p) → ps[i]? = some p
  free : c.isFree → idle c.past c.state
  active : ∀ {i : ℕ} {rest : Procedure σ α}, c.tasks[i]? = some (.active rest) →
    rest.Keeps (mid c.past i) (fun a => idle (c.past ++ [(i, some a)])) c.state

section Keeps

variable {ps : List (Procedure σ α)} {idle : List (ℕ × Option α) → σ → Prop}
  {mid : List (ℕ × Option α) → ℕ → σ → Prop}

theorem Kept.hasTurn (h : c.Kept ps idle mid) (hi : c.HasTurn i) : mid c.past i c.state := by
  obtain ⟨rest, hi⟩ := hi
  exact (h.active hi).now

theorem Kept.enter (h : c.Kept ps idle mid) {p : Procedure σ α}
    (hi : c.tasks[i]? = some (.waiting p)) (hfree : c.isFree)
    (hturn : p.Keeps (mid c.past i) (fun a => idle (c.past ++ [(i, some a)])) c.state) :
    Kept ps idle mid { c.place i (.active p) with turns := c.turns ++ [i] } where
  orderly := h.orderly.enter hi hfree
  waiting hj := by
    obtain ⟨-, ⟨⟩⟩ | ⟨-, hj⟩ := eq_or_of_place hi hj
    exact h.waiting hj
  free hfree' := absurd ⟨p, getElem?_place_self hi _⟩ (isFree_iff.mp hfree' i)
  active {j rest} hj := by
    rw [past_enter hi]
    obtain ⟨rfl, ⟨⟩⟩ | ⟨-, hj⟩ := eq_or_of_place hi hj
    · exact hturn
    · exact absurd ⟨rest, hj⟩ (isFree_iff.mp hfree j)

theorem Kept.advance (h : c.Kept ps idle mid) {act : σ → σ} {next : σ → Procedure σ α}
    (hi : c.tasks[i]? = some (.active (.step act next))) :
    Kept ps idle mid { c.place i (.active (next c.state)) with state := act c.state } where
  orderly := h.orderly.step (.advance hi)
  waiting hj := by
    obtain ⟨-, ⟨⟩⟩ | ⟨-, hj⟩ := eq_or_of_place hi hj
    exact h.waiting hj
  free hfree := absurd ⟨_, getElem?_place_self hi _⟩ (isFree_iff.mp hfree i)
  active hj := by
    have hpast : past { c.place i (.active (next c.state)) with state := act c.state } = c.past :=
      past_place hi (.inl rfl)
    rw [hpast]
    obtain ⟨rfl, ⟨⟩⟩ | ⟨hij, hj⟩ := eq_or_of_place hi hj
    · exact (h.active hi).2
    · exact absurd (h.orderly.exclusive ⟨_, hi⟩ ⟨_, hj⟩) hij

/-- A task is over that has had the turn. -/
theorem Kept.settle (h : c.Kept ps idle mid) {rest : Procedure σ α}
    (hi : c.tasks[i]? = some (.active rest)) {t : Task σ α} {o : Option α}
    (ho : t.outcome? = some o) (horderly : (c.place i t).Orderly)
    (hidle : idle (c.past ++ [(i, o)]) c.state) : (c.place i t).Kept ps idle mid where
  orderly := horderly
  waiting hj := by
    obtain ⟨-, rfl⟩ | ⟨-, hj⟩ := eq_or_of_place hi hj
    · cases ho
    · exact h.waiting hj
  free _ := by
    rw [h.orderly.past_settle hi ho]
    exact hidle
  active hj := by
    obtain ⟨-, rfl⟩ | ⟨hij, hj⟩ := eq_or_of_place hi hj
    · cases ho
    · exact absurd (h.orderly.exclusive ⟨_, hi⟩ ⟨_, hj⟩) hij

theorem Kept.leave (h : c.Kept ps idle mid) {p : Procedure σ α}
    (hi : c.tasks[i]? = some (.waiting p)) : (c.place i .givenUp).Kept ps idle mid where
  orderly := h.orderly.step (.leave hi)
  waiting hj := by
    obtain ⟨-, ⟨⟩⟩ | ⟨-, hj⟩ := eq_or_of_place hi hj
    exact h.waiting hj
  free hfree := by
    rw [past_place hi (.inr (h.orderly.waiting hi))]
    refine h.free (isFree_iff.mpr fun j ⟨rest, hj⟩ => isFree_iff.mp hfree j ⟨rest, ?_⟩)
    rw [getElem?_place hi, if_neg, hj]
    rintro rfl
    cases hi.symm.trans hj
  active hj := by
    rw [past_place hi (.inr (h.orderly.waiting hi))]
    obtain ⟨-, ⟨⟩⟩ | ⟨-, hj⟩ := eq_or_of_place hi hj
    exact h.active hj

/-- **What all courses of moves keep.** If every procedure that begins where one thing holds keeps
another one until it is over, and then the first one holds again, then these hold in any course of
moves, whoever comes to his turn and when. Where tasks are given up, the first one has to follow
from the other. -/
theorem run_keeps {s : σ} {moves : List Move} (hbegin : idle [] s)
    (hturn : ∀ {past i p s}, ps[i]? = some p → i ∉ past.map Prod.fst → idle past s →
      p.Keeps (mid past i) (fun a => idle (past ++ [(i, some a)])) s)
    (hgiveUp : ∀ {past i s}, .giveUp i ∈ moves → i ∉ past.map Prod.fst → mid past i s →
      idle (past ++ [(i, none)]) s) :
    ((create s ps).run moves).Kept ps idle mid := by
  refine run_induction ⟨orderly_create s ps, fun hi => ?_, fun _ => hbegin, fun hi => ?_⟩ ?_
  · simpa [create] using hi
  · simp [create] at hi
  · intro m c c' hmoves hm h
    cases hm with
    | enter hi hfree =>
      exact h.enter hi hfree (hturn (h.waiting hi) (notMem_past hi rfl) (h.free hfree))
    | advance hi => exact h.advance hi
    | finish hi => exact h.settle hi rfl (h.orderly.step (.finish hi)) (h.active hi).2
    | leave hi => exact h.leave hi
    | abandon hi =>
      exact h.settle hi rfl (h.orderly.step (.abandon hi))
        (hgiveUp hmoves (notMem_past hi rfl) (h.active hi).now)

end Keeps

end Shared
end Telemetry
