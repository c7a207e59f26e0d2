/-!
# The 64-bit binary format

A gauge holds a number of the IEEE 754 binary64 format, kept as its bit pattern, so that equality
of gauges is equality of patterns and every rule about them is one about natural numbers.

A finite pattern stands for `m * 2 ^ q` with a sign, where `m < 2 ^ 53` and `-1074 ≤ q`.
The patterns of the numbers that are not negative, read as natural numbers, are in the order of
the numbers: `m * 2 ^ q` has the pattern `(q + 1074) * 2 ^ 52 + m`.

## Main definitions

* `Telemetry.Binary64`: a number of the format.
* `Telemetry.Binary64.isFinite`, `Telemetry.Binary64.isNaN`
* `Telemetry.Binary64.significand`, `Telemetry.Binary64.exponent`: the `m` and the `q` above.
* `Telemetry.Binary64.ofSign`: a pattern from a sign and a pattern without one.
-/

namespace Telemetry

/-- A number of the 64-bit binary format, by its bit pattern. -/
structure Binary64 where
  bits : UInt64
  deriving DecidableEq, Inhabited, Repr

namespace Binary64

/-- The weight of the sign bit, `2 ^ 63`. -/
def signWeight : Nat := 0x8000000000000000

/-- The weight of the lowest exponent bit, `2 ^ 52`. It is also the least significand of 53 bits. -/
def exponentWeight : Nat := 0x10000000000000

/-- The pattern without its sign. -/
def magnitude (x : Binary64) : Nat := x.bits.toNat % signWeight

/-- Is the sign bit set? -/
def negative (x : Binary64) : Bool := signWeight ≤ x.bits.toNat

/-- The magnitude of infinity; what lies above is not a number. -/
def infinite : Nat := 2047 * exponentWeight

/-- Is it a number, and not infinite? -/
def isFinite (x : Binary64) : Bool := x.magnitude < infinite

/-- Is it not a number? -/
def isNaN (x : Binary64) : Bool := infinite < x.magnitude

/-- The `m` of a finite number `m * 2 ^ q`. -/
def significand (x : Binary64) : Nat :=
  let e : Nat := x.magnitude / exponentWeight
  if e = 0 then x.magnitude else exponentWeight + x.magnitude % exponentWeight

/-- The `q` of a finite number `m * 2 ^ q`. -/
def exponent (x : Binary64) : Int :=
  let e : Nat := x.magnitude / exponentWeight
  if e = 0 then -1074 else Int.ofNat e - 1075

/-- The pattern of a sign and a magnitude. -/
def ofSign (negative : Bool) (magnitude : Nat) : Binary64 :=
  ⟨UInt64.ofNat (magnitude + if negative then signWeight else 0)⟩

/-- The same number with the other sign. -/
def neg (x : Binary64) : Binary64 := ofSign (!x.negative) x.magnitude

/-- The quiet pattern that stands for no number. -/
def nan : Binary64 := ofSign false (infinite + exponentWeight / 2)

/-- Equality of numbers: the two zeros are one number, and what is not a number equals nothing. -/
def sameNumber (x y : Binary64) : Bool :=
  !x.isNaN && !y.isNaN && (x == y || (x.magnitude == 0 && y.magnitude == 0))

/-- A significand and an exponent make up the magnitude. -/
theorem magnitude_eq (x : Binary64) :
    (x.magnitude : Int) = (x.exponent + 1074) * exponentWeight + x.significand := by
  by_cases h : x.magnitude / exponentWeight = 0
  · simp [exponent, significand, h]
  · simp only [exponent, significand, if_neg h, Int.ofNat_eq_natCast]
    simp only [exponentWeight]
    omega

end Binary64
end Telemetry
