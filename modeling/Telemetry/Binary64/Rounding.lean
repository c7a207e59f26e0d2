import Telemetry.Binary64.Basic
/-!
# Rounding to the format

Every number of the format that comes out of a computation is the nearest one to an exact ratio of
natural numbers, a tie going to the even significand. Reading a decimal, a product and a quotient
are all this one rounding.

## Main definitions

* `Telemetry.Binary64.nearest`: the magnitude nearest to a ratio.
* `Telemetry.Binary64.ofNat`, `Telemetry.Binary64.ofDecimal`, `Telemetry.Binary64.mul`,
  `Telemetry.Binary64.div`
-/

namespace Telemetry.Binary64

/-- The nearest integer to a ratio, a tie going to the even one. -/
def roundHalfEven (num den : Nat) : Nat :=
  let m := num / den
  let r := num % den
  if 2 * r > den || (2 * r == den && m % 2 == 1) then m + 1 else m

/-- The ratio `num / den` multiplied by `2 ^ (-q)`. -/
def shiftRatio (num den : Nat) (q : Int) : Nat × Nat :=
  if 0 ≤ q then (num, den * Nat.pow 2 q.toNat) else (num * Nat.pow 2 (-q).toNat, den)

/-- The exponent at which a ratio has a significand of 53 bits, or the least exponent of the
format if that is larger. -/
def ratioExponent (num den : Nat) : Int :=
  let q : Int := (num.log2 : Int) - den.log2 - 52
  let (n, d) := shiftRatio num den q
  max (-1074) (if n < d * exponentWeight then q - 1 else q)

/-- The magnitude nearest to a ratio. Rounding up to the next power of two carries into the
exponent by itself, and what leaves the range becomes infinite. -/
def nearest (num den : Nat) : Nat :=
  if num = 0 then 0
  else
    let q := ratioExponent num den
    let (n, d) := shiftRatio num den q
    min infinite ((q + 1074).toNat * exponentWeight + roundHalfEven n d)

/-- The nearest number to a signed ratio. -/
def ofRatio (negative : Bool) (num den : Nat) : Binary64 := ofSign negative (nearest num den)

/-- The nearest number to a natural number. -/
def ofNat (n : Nat) : Binary64 := ofRatio false n 1

/-- The nearest number to `digits * 10 ^ e`. A number far outside the range is settled by its
order of magnitude alone. -/
def ofDecimal (negative : Bool) (digits : Nat) (e : Int) : Binary64 :=
  let order : Int := (Nat.toDigits 10 digits).length + e
  if digits = 0 || order < -400 then ofSign negative 0
  else if order > 400 then ofSign negative infinite
  else if 0 ≤ e then ofRatio negative (digits * Nat.pow 10 e.toNat) 1
  else ofRatio negative digits (Nat.pow 10 (-e).toNat)

/-- The correctly rounded power of ten. -/
def powerOfTen (e : Nat) : Binary64 := ofDecimal false 1 e

/-- The nearest number to the product of two finite numbers. -/
def mul (x y : Binary64) : Binary64 :=
  let negative := x.negative != y.negative
  let m := x.significand * y.significand
  let q := x.exponent + y.exponent
  if 0 ≤ q then ofRatio negative (m * Nat.pow 2 q.toNat) 1
  else ofRatio negative m (Nat.pow 2 (-q).toNat)

/-- The nearest number to the quotient of two finite numbers, the second not zero. -/
def div (x y : Binary64) : Binary64 :=
  let negative := x.negative != y.negative
  let q := x.exponent - y.exponent
  if 0 ≤ q then ofRatio negative (x.significand * Nat.pow 2 q.toNat) y.significand
  else ofRatio negative x.significand (y.significand * Nat.pow 2 (-q).toNat)

end Telemetry.Binary64
