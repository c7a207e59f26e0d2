import Telemetry.Binary64.Basic
/-!
# The shortest decimal of a number

Among the decimals that read back as a number, the ones with the fewest digits, and of those the
nearest. The reals that round to `m * 2 ^ q` form an interval around it, whose ends belong to it
when `m` is even. On the grid of decimals with `n` digits, a point of the interval exists only if
one of the two neighbours of the number is in it, so those two are all that is tested.

## Main definitions

* `Telemetry.Binary64.Decimal`: digits and a power of ten.
* `Telemetry.Binary64.shortest`: the shortest decimal of a finite number.
-/

namespace Telemetry.Binary64

/-- The number `digits * 10 ^ exponent`. -/
structure Decimal where
  digits : Nat
  exponent : Int
  deriving DecidableEq, Repr

/-- Which of two equally near shortest decimals is taken. -/
inductive Tie where
  | toEven
  | up
  deriving DecidableEq, Repr

/-- The interval of the reals that round to a number, and the number itself, as three numerators
over one denominator. -/
structure Interval where
  low : Nat
  mid : Nat
  high : Nat
  den : Nat
  closed : Bool

/-- Multiplies by a power of ten. -/
def Interval.scale (i : Interval) (e : Int) : Interval :=
  if 0 ≤ e then
    let t := Nat.pow 10 e.toNat
    { i with low := i.low * t, mid := i.mid * t, high := i.high * t }
  else { i with den := i.den * Nat.pow 10 (-e).toNat }

/-- Is the integer in the interval? -/
def Interval.holds (i : Interval) (n : Nat) : Bool :=
  let x := n * i.den
  if i.closed then decide (i.low ≤ x) && decide (x ≤ i.high)
  else decide (i.low < x) && decide (x < i.high)

/-- The reals that round to a number. Below a power of two the numbers are twice as dense, so the
lower half of the interval is half as long there. -/
def interval (x : Binary64) : Interval :=
  let m := x.significand
  let q := x.exponent - 2
  let below := if m = exponentWeight ∧ q + 2 ≠ -1074 then 1 else 2
  let s := if 0 ≤ q then Nat.pow 2 q.toNat else 1
  { low := (4 * m - below) * s
    mid := 4 * m * s
    high := (4 * m + 2) * s
    den := if 0 ≤ q then 1 else Nat.pow 2 (-q).toNat
    closed := m % 2 == 0 }

/-- The order of magnitude: the `k` with `10 ^ k ≤ num / den < 10 ^ (k + 1)`. -/
def order (num den : Nat) : Int :=
  let k : Int := (Nat.toDigits 10 num).length - (Nat.toDigits 10 den).length
  let reached :=
    if 0 ≤ k then den * Nat.pow 10 k.toNat ≤ num else den ≤ num * Nat.pow 10 (-k).toNat
  if reached then k else k - 1

/-- The integer of the interval next to its middle, if there is one. -/
def Interval.candidate? (i : Interval) (tie : Tie) : Option Nat :=
  let a := i.mid / i.den
  let r := i.mid % i.den
  let upper := match compare (2 * r) i.den with
    | .gt => true
    | .lt => false
    | .eq => match tie with
      | .up => true
      | .toEven => a % 2 == 1
  match i.holds a, i.holds (a + 1) with
  | true, true => some (if upper then a + 1 else a)
  | true, false => some a
  | false, true => some (a + 1)
  | false, false => none

/-- Tries grids of more and more digits. -/
def searchGrid (i : Interval) (tie : Tie) : Nat → Int → Decimal
  | 0, e => ⟨(i.scale (-e)).mid / (i.scale (-e)).den, e⟩
  | n + 1, e =>
    match (i.scale (-e)).candidate? tie with
    | some d => ⟨d, e⟩
    | none => searchGrid i tie n (e - 1)

/-- Moves trailing zeros of the digits into the exponent. -/
def stripZeros : Nat → Decimal → Decimal
  | 0, d => d
  | n + 1, d =>
    if d.digits % 10 = 0 && d.digits ≠ 0 then stripZeros n ⟨d.digits / 10, d.exponent + 1⟩ else d

/-- The shortest decimal of a finite number, sign apart. Seventeen digits always suffice. -/
def shortest (tie : Tie) (x : Binary64) : Decimal :=
  if x.significand = 0 then ⟨0, 0⟩
  else
    let i := x.interval
    stripZeros 17 (searchGrid i tie 17 (order i.mid i.den))

end Telemetry.Binary64
