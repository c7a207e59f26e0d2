/-!
# Retrying

A call that fails in a way that may pass is made again after a delay. The delays are fixed in
advance, one before each further attempt, so there is one attempt more than there are delays.
Time is a number of milliseconds that only the delays move. A caller who gives up at some moment
abandons the call during a delay, between two attempts.

## Main definitions

* `Telemetry.Backoff`: the delays.
* `Telemetry.Backoff.runUntil`: a call with its retries, up to a deadline.
* `Telemetry.Backoff.run`: a call with its retries.
-/

namespace Telemetry

/-- The delays before the second, third, … attempt, in milliseconds. -/
structure Backoff where
  delays : List Nat
  deriving DecidableEq, Repr

/-- How a call ended for the one who made it. -/
inductive Ending (ε α : Type) where
  | returned (result : Except ε α)
  /-- The deadline passed during a delay. -/
  | abandoned

/-- A call that ended, what it left behind, and when it ended. -/
structure Ended (ε α σ : Type) where
  ending : Ending ε α
  state : σ
  time : Nat

namespace Backoff

/-- One attempt only. -/
def none : Backoff := ⟨[]⟩

/-- Three more attempts, after one, three and five seconds. -/
def standard : Backoff := ⟨[1000, 3000, 5000]⟩

/-- The number of attempts at most. -/
def maxAttempts (b : Backoff) : Nat := b.delays.length + 1

variable {ε α σ : Type}

/-- Attempts from a moment on. `again` says which failures may pass; `op` is told the time. A delay
that would reach the deadline is not survived. -/
def attempts (again : ε → Bool) (op : Nat → σ → Except ε α × σ) (deadline : Option Nat) :
    List Nat → Nat → σ → Ended ε α σ
  | [], now, s =>
    let (r, s) := op now s
    ⟨.returned r, s, now⟩
  | d :: ds, now, s =>
    match op now s with
    | (.ok a, s) => ⟨.returned (.ok a), s, now⟩
    | (.error e, s) =>
      if again e then
        match deadline with
        | some limit =>
          if limit ≤ now + d then ⟨.abandoned, s, limit⟩
          else attempts again op deadline ds (now + d) s
        | .none => attempts again op deadline ds (now + d) s
      else ⟨.returned (.error e), s, now⟩

/-- A call with its retries, abandoned when the deadline passes. -/
def runUntil (b : Backoff) (deadline : Option Nat) (again : ε → Bool)
    (op : Nat → σ → Except ε α × σ) (s : σ) : Ended ε α σ :=
  attempts again op deadline b.delays 0 s

/-- A call with its retries. -/
def run (b : Backoff) (again : ε → Bool) (op : Nat → σ → Except ε α × σ) (s : σ) : Ended ε α σ :=
  b.runUntil .none again op s

end Backoff
end Telemetry
