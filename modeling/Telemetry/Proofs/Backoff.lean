import Telemetry.Backoff
import Mathlib.Algebra.GroupWithZero.Nat
import Mathlib.Algebra.BigOperators.Group.List.Basic
import Mathlib.Order.Bounds.Basic

/-!
# The course of a call with retries

A call with retries is attempted one time more than it fails in vain: every attempt but the last
fails in a way that may pass, each begins on what the one before it left, and the last one gives
the result. A caller who does not give up hears that result.

## Main definitions

* `Telemetry.Ending.isOk` — a call that ended with success
* `Telemetry.Backoff.outcomes` — a call made at some moments, one after the other
* `Telemetry.Backoff.repeated` — a call made some times in a row, whatever the moments
* `Telemetry.Backoff.Course` — the attempts of a call, seen from its end
* `Telemetry.Backoff.Begins` — the attempts that are begun before the deadline
* `Telemetry.Backoff.moments` — the moments at which attempts are due
* `Telemetry.Backoff.Settles` — a result that is not followed by another attempt
* `Telemetry.Backoff.noted` — a call that keeps a list of the moments it was made at

## Main results

* `Telemetry.Backoff.exists_course` — every call without a deadline has a course
* `Telemetry.Backoff.attempts_invariant` — what failures keep, a call that fails keeps
* `Telemetry.Backoff.attempts_related` — calls that succeed and fail alike end alike
* `Telemetry.Backoff.Begins.attempts_eq` — a failure that does not pass is the end of the call
* `Telemetry.Backoff.run_eq_first` — a call ends with the first result that settles it
* `Telemetry.Backoff.run_noted_eq_first` — and it is made at the moments up to that one only
-/

namespace Telemetry

variable {ε α ρ σ : Type}

/-- Does a call end with success? -/
def Ending.isOk : Ending ε α → Bool
  | .returned r => r.isOk
  | .abandoned => false

namespace Backoff

/-- What comes of a call made at given moments, one after the other, and what is left at last. -/
def outcomes (op : ℕ → σ → ρ × σ) : List ℕ → σ → List ρ × σ
  | [], s => ([], s)
  | t :: ts, s =>
    ((op t s).1 :: (outcomes op ts (op t s).2).1, (outcomes op ts (op t s).2).2)

/-- What comes of a call made a number of times in a row, and what is left at last. -/
def repeated (op : σ → ρ × σ) : ℕ → σ → List ρ × σ
  | 0, s => ([], s)
  | n + 1, s => ((op s).1 :: (repeated op n (op s).2).1, (repeated op n (op s).2).2)

/-- Only the number of the moments matters to a call that is not told the time. -/
theorem outcomes_const (op : σ → ρ × σ) (ts : List ℕ) (s : σ) :
    outcomes (fun _ => op) ts s = repeated op ts.length s := by
  induction ts generalizing s with
  | nil => rfl
  | cons t ts ih => rw [outcomes, List.length_cons, repeated, ih]

/-- Each time, the call is made on what the times before left. -/
theorem getElem?_repeated (op : σ → ρ × σ) {i n : ℕ} (h : i < n) (s : σ) :
    (repeated op n s).1[i]? = some (op (repeated op i s).2).1 := by
  induction i generalizing n s with
  | zero =>
    obtain ⟨n, rfl⟩ := Nat.exists_eq_succ_of_ne_zero (Nat.ne_of_gt h)
    rfl
  | succ i ih =>
    obtain ⟨n, rfl⟩ := Nat.exists_eq_succ_of_ne_zero (Nat.ne_of_gt (Nat.zero_lt_of_lt h))
    exact ih (Nat.lt_of_succ_lt_succ h) (op s).2

/-- The course of a call that starts at a moment: the failures that did not end it and the result
that did. -/
structure Course (again : ε → Bool) (op : ℕ → σ → Except ε α × σ) (delays : List ℕ) (now : ℕ)
    (s : σ) (f : Ended ε α σ) (failures : List ε) (result : Except ε α) : Prop where
  /-- Each attempt begins on what the one before it left, a delay later. -/
  outcomes : outcomes op ((delays.scanl (· + ·) now).take (failures.length + 1)) s
    = (failures.map .error ++ [result], f.state)
  /-- The caller hears the last result. -/
  ending : f.ending = .returned result
  /-- Only the delays that were waited for take time. -/
  time : f.time = now + (delays.take failures.length).sum
  /-- There is a delay behind each failure that did not end the call. -/
  count : failures.length ≤ delays.length
  /-- Each of them may pass. -/
  passing : ∀ e ∈ failures, again e = true
  /-- The last result is a success, or a failure that does not pass, unless no delay is left. -/
  last : failures.length = delays.length ∨ ∀ e, result = .error e → again e = false

/-- **Every call without a deadline has a course.** -/
theorem exists_course (again : ε → Bool) (op : ℕ → σ → Except ε α × σ) (delays : List ℕ)
    (now : ℕ) (s : σ) :
    ∃ failures result,
      Course again op delays now s (attempts again op .none delays now s) failures result := by
  induction delays generalizing now s with
  | nil =>
    exact ⟨[], (op now s).1, rfl, rfl, rfl, Nat.le_refl _, by simp, .inl rfl⟩
  | cons d ds ih =>
    rcases hop : op now s with ⟨e | a, u⟩
    · by_cases he : again e = true
      · -- the first failure passes, and what follows is the course of the rest
        obtain ⟨failures, result, hrest⟩ := ih (now + d) u
        have hattempts : attempts again op .none (d :: ds) now s
            = attempts again op .none ds (now + d) u := by
          simp [attempts, hop, he]
        rw [hattempts]
        refine ⟨e :: failures, result, ?_, hrest.ending, ?_, ?_, ?_, ?_⟩
        · rw [List.length_cons, List.scanl_cons, List.take_succ_cons, Backoff.outcomes, hop]
          simp [hrest.outcomes]
        · rw [hrest.time, List.length_cons, List.take_succ_cons, List.sum_cons, Nat.add_assoc]
        · exact Nat.succ_le_succ hrest.count
        · intro x hx
          rcases List.mem_cons.mp hx with rfl | hx
          · exact he
          · exact hrest.passing x hx
        · exact hrest.last.imp_left fun h => by rw [List.length_cons, List.length_cons, h]
      · have hattempts : attempts again op .none (d :: ds) now s
            = ⟨.returned (.error e), u, now⟩ := by
          simp [attempts, hop, he]
        rw [hattempts]
        refine ⟨[], .error e, ?_, rfl, rfl, Nat.zero_le _, by simp, .inr ?_⟩
        · simp [Backoff.outcomes, hop]
        · rintro x ⟨rfl⟩
          simpa using he
    · have hattempts : attempts again op .none (d :: ds) now s = ⟨.returned (.ok a), u, now⟩ := by
        simp [attempts, hop]
      rw [hattempts]
      refine ⟨[], .ok a, ?_, rfl, rfl, Nat.zero_le _, by simp, .inr ?_⟩
      · simp [Backoff.outcomes, hop]
      · rintro x ⟨⟩

/-- **What failures keep, a call that fails keeps**, and so does one that is abandoned. A call that
succeeds does so in one attempt on a state in which that still held. -/
theorem attempts_invariant {I : σ → Prop} {op : ℕ → σ → Except ε α × σ}
    (hfail : ∀ now s e u, I s → op now s = (.error e, u) → I u) (again : ε → Bool)
    (deadline : Option ℕ) (delays : List ℕ) (now : ℕ) {s : σ} (hs : I s) :
    let f := attempts again op deadline delays now s
    (I f.state ∧ ∀ a, f.ending ≠ .returned (.ok a)) ∨
      ∃ t u a, I u ∧ op t u = (.ok a, f.state) ∧ f.ending = .returned (.ok a) := by
  induction delays generalizing now s with
  | nil =>
    rcases hop : op now s with ⟨e | a, u⟩
    · exact .inl (by simpa [attempts, hop] using hfail _ _ _ _ hs hop)
    · exact .inr ⟨now, s, a, hs, by simp [attempts, hop], by simp [attempts, hop]⟩
  | cons d ds ih =>
    rcases hop : op now s with ⟨e | a, u⟩
    · have hu : I u := hfail _ _ _ _ hs hop
      simp only [attempts, hop]
      split
      · split
        · split
          · exact .inl ⟨hu, fun a h => by cases h⟩
          · exact ih _ hu
        · exact ih _ hu
      · exact .inl ⟨hu, fun a h => by cases h⟩
    · exact .inr ⟨now, s, a, hs, by simp [attempts, hop], by simp [attempts, hop]⟩

/-- **Calls that succeed and fail alike end alike**, if all their failures may pass: what they leave
is related as long as each attempt leaves it related. -/
theorem attempts_related {δ β τ : Type} {R : σ → τ → Prop} {op : ℕ → σ → Except ε α × σ}
    {op' : ℕ → τ → Except δ β × τ}
    (hop : ∀ now now' s t, R s t →
      (op now s).1.isOk = (op' now' t).1.isOk ∧ R (op now s).2 (op' now' t).2)
    (delays : List ℕ) (now now' : ℕ) {s : σ} {t : τ} (h : R s t) :
    let f := attempts (fun _ => true) op .none delays now s
    let f' := attempts (fun _ => true) op' .none delays now' t
    f.ending.isOk = f'.ending.isOk ∧ R f.state f'.state := by
  induction delays generalizing now now' s t with
  | nil => exact hop now now' s t h
  | cons d ds ih =>
    obtain ⟨hok, hleft⟩ := hop now now' s t h
    simp only [attempts]
    generalize op now s = f at hok hleft
    generalize op' now' t = f' at hok hleft
    rcases f with ⟨e | a, u⟩ <;> rcases f' with ⟨e' | a', u'⟩
    · exact ih (now + d) (now' + d) hleft
    · cases hok
    · cases hok
    · exact ⟨rfl, hleft⟩

/-- The attempts that are begun, with the moment and what is left from the ones before: the first
attempt, and after a failure that may pass the next one, if the delay ends before the deadline. -/
inductive Begins (again : ε → Bool) (op : ℕ → σ → Except ε α × σ) (deadline : Option ℕ) :
    List ℕ → ℕ → σ → ℕ → σ → Prop
  | first {delays : List ℕ} {now : ℕ} {s : σ} : Begins again op deadline delays now s now s
  | next {d : ℕ} {ds : List ℕ} {now t : ℕ} {s u v : σ} {e : ε} (hop : op now s = (.error e, u))
      (he : again e = true) (hlimit : ∀ limit ∈ deadline, now + d < limit)
      (hrest : Begins again op deadline ds (now + d) u t v) :
      Begins again op deadline (d :: ds) now s t v

/-- **A failure that does not pass is the end of the call**, in whichever attempt that is begun. -/
theorem Begins.attempts_eq {again : ε → Bool} {op : ℕ → σ → Except ε α × σ} {deadline : Option ℕ}
    {delays : List ℕ} {now t : ℕ} {s v w : σ} (h : Begins again op deadline delays now s t v)
    {e : ε} (hop : op t v = (.error e, w)) (he : again e = false) :
    attempts again op deadline delays now s = ⟨.returned (.error e), w, t⟩ := by
  induction h with
  | @first delays now s =>
    cases delays with
    | nil => simp only [attempts, hop]
    | cons d ds => simp [attempts, hop, he]
  | next hfirst hagain hlimit _ ih =>
    rw [← ih hop, attempts, hfirst]
    cases deadline with
    | none => simp [hagain]
    | some limit => simp [hagain, Nat.not_le.mpr (hlimit limit rfl)]

/-! ### The first result that settles the call -/

/-- The moments at which attempts are due: the first at once, each later one when all the delays
before it are over. -/
def moments (b : Backoff) : List ℕ :=
  (List.range b.maxAttempts).map fun i => (b.delays.take i).sum

/-- Is a result one that no attempt follows: a success, or a failure that does not pass? -/
def Settles (again : ε → Bool) (r : Except ε α) : Prop := ∀ e, r = .error e → again e = false

/-- A call that appends the moment it is made at to a list kept beside its state. -/
def noted (op : ℕ → σ → ρ × σ) (now : ℕ) (s : σ × List ℕ) : ρ × σ × List ℕ :=
  ((op now s.1).1, (op now s.1).2, s.2 ++ [now])

@[simp] theorem length_moments (b : Backoff) : b.moments.length = b.maxAttempts := by
  simp [moments]

theorem getElem?_moments (b : Backoff) {i : ℕ} (hi : i ≤ b.delays.length) :
    b.moments[i]? = some (b.delays.take i).sum := by
  rw [moments, List.getElem?_map, maxAttempts, List.getElem?_range (Nat.lt_succ_of_le hi)]
  rfl

theorem scanl_eq_moments (b : Backoff) : b.delays.scanl (· + ·) 0 = b.moments := by
  refine List.ext_getElem? fun i => ?_
  rw [List.getElem?_scanl]
  by_cases hi : i ≤ b.delays.length
  · rw [if_pos hi, getElem?_moments b hi, ← List.sum_eq_foldl]
  · rw [if_neg hi, List.getElem?_eq_none]
    rw [length_moments]
    exact Nat.succ_le_of_lt (Nat.lt_of_not_le hi)

/-- What the first attempts come to does not depend on how many follow. -/
theorem outcomes_take (op : ℕ → σ → ρ × σ) (ts : List ℕ) (s : σ) (k : ℕ) :
    (outcomes op (ts.take k) s).1 = (outcomes op ts s).1.take k := by
  induction ts generalizing s k with
  | nil => simp [outcomes]
  | cons t ts ih =>
    cases k with
    | zero => rfl
    | succ k => rw [List.take_succ_cons, outcomes, outcomes, List.take_succ_cons, ih]

/-- The list kept beside the state is the list of all the moments, and it changes nothing else. -/
theorem outcomes_noted (op : ℕ → σ → ρ × σ) (ts : List ℕ) (s : σ) (past : List ℕ) :
    outcomes (noted op) ts (s, past)
      = ((outcomes op ts s).1, (outcomes op ts s).2, past ++ ts) := by
  induction ts generalizing s past with
  | nil => simp [outcomes]
  | cons t ts ih => simp only [outcomes, noted, ih, List.append_assoc, List.singleton_append]

/-- A course ends with the first result that settles the call. -/
theorem Course.isLeast {again : ε → Bool} {op : ℕ → σ → Except ε α × σ} {b : Backoff} {s : σ}
    {f : Ended ε α σ} {failures : List ε} {result : Except ε α}
    (h : Course again op b.delays 0 s f failures result) :
    IsLeast {i | i = b.delays.length ∨
        ∃ r, (Backoff.outcomes op b.moments s).1[i]? = some r ∧ Settles again r} failures.length ∧
      (Backoff.outcomes op b.moments s).1[failures.length]? = some result := by
  have hfirst : (Backoff.outcomes op b.moments s).1.take (failures.length + 1)
      = failures.map .error ++ [result] := by
    rw [← outcomes_take, ← scanl_eq_moments, h.outcomes]
  have hat : ∀ i < failures.length + 1,
      (Backoff.outcomes op b.moments s).1[i]? = (failures.map .error ++ [result])[i]? := by
    intro i hi
    rw [← hfirst, List.getElem?_take_of_lt hi]
  have hresult : (Backoff.outcomes op b.moments s).1[failures.length]? = some result := by
    rw [hat _ (Nat.lt_succ_self _), List.getElem?_append_right (by simp)]
    simp
  refine ⟨⟨h.last.imp_right fun hlast => ⟨result, hresult, hlast⟩, fun i hi => ?_⟩, hresult⟩
  -- an earlier result is a failure that passed, and there was a delay after it
  by_contra hlt
  rw [Nat.not_le] at hlt
  rcases hi with rfl | ⟨r, hr, hsettles⟩
  · exact Nat.not_le_of_lt hlt h.count
  · rw [hat i (Nat.lt_succ_of_lt hlt), List.getElem?_append_left (by simpa using hlt),
      List.getElem?_map, List.getElem?_eq_getElem hlt] at hr
    cases hr
    exact absurd (hsettles _ rfl) (by simp [h.passing _ (List.getElem_mem hlt)])

/-- **A call ends with the first result that settles it**, or with the last one there is a delay
for, and only the delays before that result take time. -/
theorem run_eq_first (b : Backoff) (again : ε → Bool) (op : ℕ → σ → Except ε α × σ) (s : σ) :
    ∃ j r, IsLeast {i | i = b.delays.length ∨
        ∃ r, (outcomes op b.moments s).1[i]? = some r ∧ Settles again r} j ∧
      (outcomes op b.moments s).1[j]? = some r ∧
      b.run again op s
        = ⟨.returned r, (outcomes op (b.moments.take (j + 1)) s).2, (b.delays.take j).sum⟩ := by
  obtain ⟨failures, result, h⟩ := exists_course again op b.delays 0 s
  obtain ⟨hleast, hresult⟩ := h.isLeast
  refine ⟨failures.length, result, hleast, hresult, ?_⟩
  have hstate := congrArg Prod.snd h.outcomes
  have htime := h.time
  rw [scanl_eq_moments] at hstate
  rw [Nat.zero_add] at htime
  rw [hstate, ← htime, ← h.ending]
  rfl

/-- **A call is made at the moments up to its first result that settles it**, and at no other: the
list it keeps of them ends there, and so does the time it takes. -/
theorem run_noted_eq_first (b : Backoff) (again : ε → Bool) (op : ℕ → σ → Except ε α × σ) (s : σ) :
    let results := (outcomes op b.moments s).1
    ∃ j r, IsLeast {i | i = b.delays.length ∨ ∃ r, results[i]? = some r ∧ Settles again r} j ∧
      results[j]? = some r ∧
      b.run again (noted op) (s, []) =
        ⟨.returned r, ((outcomes op (b.moments.take (j + 1)) s).2, b.moments.take (j + 1)),
          (b.delays.take j).sum⟩ := by
  obtain ⟨j, r, hleast, hresult, hrun⟩ := run_eq_first b again (noted op) (s, [])
  rw [outcomes_noted] at hleast hresult hrun
  exact ⟨j, r, hleast, hresult, hrun⟩

end Backoff
end Telemetry
