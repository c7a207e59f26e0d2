import Telemetry.Proofs.Json.Number

/-!
# Digits and a power of ten

The reader turns digits and a decimal exponent into a number by rounding the digits, rounding the
power of ten, and rounding their product or quotient; very small numbers take a second quotient.
What comes out is not the number nearest to the decimal, but a few roundings away from it. For the
decimal of a number it is always finite, which is close at the upper end of the range, where the
product of the rounded factors could leave it. There are no roundings but the last one for few
digits and small exponents, and then the number comes back.

## Main definitions

* `Telemetry.Binary64.Decimal.Exact` — the digits and the power of ten are numbers of the format

## Main results

* `Telemetry.Json.scaled?_spec` — what the reader makes of a decimal, and how far off it is
* `Telemetry.Json.scaled?_exact` — without roundings on the way it is the number
-/

namespace Telemetry

namespace Binary64

/-- The digits and the power of ten are numbers of the format. -/
def Decimal.Exact (d : Decimal) : Prop := d.digits < 2 * exponentWeight ∧ d.exponent.natAbs ≤ 22

/-! ### The two factors -/

theorem negative_ofNat (n : ℕ) : (ofNat n).negative = false := negative_ofRatio false n 1

theorem negative_powerOfTen {k : ℕ} (hk : k ≤ 308) : (powerOfTen k).negative = false := by
  rw [powerOfTen_eq hk]
  exact negative_ofRatio _ _ _

theorem close_powerOfTen {k : ℕ} (hk : k ≤ 308) : Close 2 (10 ^ k) (powerOfTen k).size :=
  (rounds_powerOfTen hk).close (one_le_pow₀ (by norm_num))

theorem close_ofNat {n : ℕ} (hn : 0 < n) (hle : n ≤ 10 ^ 17) : Close 2 n (ofNat n).size := by
  have hlt : (n : ℚ) < overflow := by
    calc (n : ℚ) ≤ 10 ^ 17 := by exact_mod_cast hle
      _ < overflow := ten_pow_lt_overflow (by decide)
  exact (rounds_ofNat hlt).close (by exact_mod_cast hn)

/-! ### Products and quotients -/

/-- A quotient is rounded, and cannot leave the range. -/
theorem near_div {n k : ℕ} {r : ℚ} {x : Binary64} (hk : k ≤ 308) (hcount : n ≤ 100)
    (hr : 0 ≤ r) (hsize : x.size ≤ 10 ^ 18) (hsign : x.negative = false) (h : Near n r x.size) :
    (x.div (powerOfTen k)).isFinite = true ∧ (x.div (powerOfTen k)).negative = false ∧
      Near (n + 5) (r / 10 ^ k) (x.div (powerOfTen k)).size := by
  have hone : (1 : ℚ) ≤ 10 ^ k := one_le_pow₀ (by norm_num)
  have hclose := close_powerOfTen hk
  have hpos := hclose.pos (by positivity)
  have hhalf : 1 / 2 ≤ (powerOfTen k).size := by
    have hlower := hclose.lower
    norm_num at hlower
    linarith
  have hlt : x.size / (powerOfTen k).size < overflow := by
    refine lt_of_le_of_lt ?_ (ten_pow_lt_overflow (by decide : 19 ≤ 308))
    rw [div_le_iff₀ hpos]
    linarith
  obtain ⟨hrounds, hnegative⟩ := rounds_div hpos hlt
  refine ⟨hrounds.isFinite, ?_, ?_⟩
  · rw [hnegative, hsign, negative_powerOfTen hk]
    rfl
  · have hquotient := h.div hr hone hcount hclose
    exact Near.trans (n := n + 3) (m := 1) (by positivity) (by omega) hquotient hrounds.near

/-- A product is rounded, if it does not leave the range. -/
theorem near_mul {n k : ℕ} (hk : k ≤ 308) (hn : 0 < n) (hle : n ≤ 10 ^ 17)
    (hlt : (ofNat n).size * (powerOfTen k).size < overflow) :
    ((ofNat n).mul (powerOfTen k)).isFinite = true ∧
      ((ofNat n).mul (powerOfTen k)).negative = false ∧
      Near 7 (n * 10 ^ k) ((ofNat n).mul (powerOfTen k)).size := by
  obtain ⟨hrounds, hnegative⟩ := rounds_mul hlt
  refine ⟨hrounds.isFinite, ?_, ?_⟩
  · rw [hnegative, negative_ofNat, negative_powerOfTen hk]
    rfl
  · have hproduct := (close_ofNat hn hle).mul (by positivity) (by positivity) (close_powerOfTen hk)
    exact Near.trans (n := 5) (m := 1) (by positivity) (by decide) hproduct.near hrounds.near

/-! ### The upper end of the range -/

/-- A product of sizes in natural numbers. -/
theorem size_mul_lt_overflow {x y : Binary64} {q j : ℕ} (hq : x.exponent + y.exponent = q)
    (hj : (j : ℤ) = 970)
    (h : x.significand * y.significand * Nat.pow 2 q < (2 ^ 54 - 1) * Nat.pow 2 j) :
    x.size * y.size < overflow := by
  have hsize : x.size * y.size = ((x.significand * y.significand * Nat.pow 2 q : ℕ) : ℚ) := by
    rw [size, size, Nat.cast_mul, Nat.cast_mul, cast_pow, Nat.cast_ofNat, ← zpow_natCast, ← hq,
      zpow_add₀ (by norm_num)]
    ring
  rw [hsize, overflow_eq hj]
  exact Nat.cast_lt.mpr h

/-- The decimals of the largest numbers but one order of magnitude, one by one. -/
theorem last_product_lt {n : ℕ} (hlow : 17976931348623150 < n) (hhigh : n ≤ 17976931348623157) :
    (ofNat n).size * (powerOfTen 292).size < overflow := by
  obtain ⟨i, hi, rfl⟩ : ∃ i < 7, 17976931348623151 + i = n :=
    ⟨n - 17976931348623151, by omega, by omega⟩
  obtain ⟨j, hj, hcheck⟩ : ∃ j : ℕ, (j : ℤ) = 970 ∧ ∀ i < 7,
      (ofNat (17976931348623151 + i)).exponent + (powerOfTen 292).exponent
        = ((ofNat (17976931348623151 + i)).exponent + (powerOfTen 292).exponent).toNat ∧
      (ofNat (17976931348623151 + i)).significand * (powerOfTen 292).significand * Nat.pow 2
        ((ofNat (17976931348623151 + i)).exponent + (powerOfTen 292).exponent).toNat
        < (2 ^ 54 - 1) * Nat.pow 2 j := ⟨970, rfl, by decide +kernel⟩
  exact size_mul_lt_overflow (hcheck i hi).1 hj (hcheck i hi).2

theorem product_lt_of_le {n k : ℕ} (hk : k ≤ 308) (hn : 0 < n) (hle : n ≤ 10 ^ 17) {j : ℕ}
    (hj : j = 293) (h : n * Nat.pow 10 k ≤ 1797693134862315 * Nat.pow 10 j) :
    (ofNat n).size * (powerOfTen k).size < overflow := by
  obtain ⟨i, hi, hlt⟩ : ∃ i : ℕ, (i : ℤ) = 970 ∧ 1797693134862315 * Nat.pow 10 j * (2 ^ 52 + 1) ^ 2
      < (2 ^ 54 - 1) * Nat.pow 2 i * 2 ^ 104 := by
    subst hj
    exact ⟨970, rfl, by decide +kernel⟩
  have hfactors : (ofNat n).size * (powerOfTen k).size
      ≤ n * (1 + 2 / 2 ^ 53) * (10 ^ k * (1 + 2 / 2 ^ 53)) :=
    mul_le_mul (close_ofNat hn hle).upper (close_powerOfTen hk).upper (size_nonneg _)
      (by positivity)
  have hproduct : ((n * Nat.pow 10 k : ℕ) : ℚ) ≤ (1797693134862315 * Nat.pow 10 j : ℕ) :=
    Nat.cast_le.mpr h
  have hrange : ((1797693134862315 * Nat.pow 10 j * (2 ^ 52 + 1) ^ 2 : ℕ) : ℚ)
      < ((2 ^ 54 - 1) * Nat.pow 2 i * 2 ^ 104 : ℕ) := Nat.cast_lt.mpr hlt
  rw [Nat.cast_mul, cast_pow, Nat.cast_ofNat] at hproduct
  rw [Nat.cast_mul, Nat.cast_mul _ (2 ^ 104), ← overflow_eq hi] at hrange
  generalize ((1797693134862315 * Nat.pow 10 j : ℕ) : ℚ) = b at *
  refine lt_of_le_of_lt hfactors ?_
  norm_num at hrange ⊢
  linarith

/-- A decimal below the largest number is far enough from the end of the range, or one of a few. -/
theorem below_or_last {n k j : ℕ} (hn : n ≤ 10 ^ 17)
    (h : n * Nat.pow 10 k < 17976931348623157 * Nat.pow 10 j) :
    n * Nat.pow 10 k ≤ 1797693134862315 * Nat.pow 10 (j + 1) ∨
      k = j ∧ 17976931348623150 < n ∧ n ≤ 17976931348623156 := by
  have hstep : Nat.pow 10 (j + 1) = 10 * Nat.pow 10 j := Nat.pow_succ'
  have hpos : 0 < Nat.pow 10 j := Nat.pow_pos (by decide)
  rw [hstep]
  rcases lt_trichotomy k j with hlt | rfl | hgt
  · left
    obtain ⟨i, hi⟩ : ∃ i, j = i + 1 := ⟨j - 1, by omega⟩
    have hpow : Nat.pow 10 k ≤ Nat.pow 10 i := Nat.pow_le_pow_right (by decide) (by omega)
    have hsucc : Nat.pow 10 j = 10 * Nat.pow 10 i := by
      rw [hi]
      exact Nat.pow_succ'
    have hmul : n * Nat.pow 10 k ≤ 10 ^ 17 * Nat.pow 10 i := Nat.mul_le_mul hn hpow
    rw [hsucc]
    omega
  · have hlt : n < 17976931348623157 := lt_of_mul_lt_mul_right h (Nat.zero_le _)
    rcases Nat.lt_or_ge 17976931348623150 n with hlow | hlow
    · exact .inr ⟨rfl, hlow, by omega⟩
    · left
      have hmul := Nat.mul_le_mul_right (Nat.pow 10 k) hlow
      omega
  · left
    obtain ⟨i, rfl⟩ : ∃ i, k = i + 1 + j := ⟨k - j - 1, by omega⟩
    have hsplit : Nat.pow 10 (i + 1 + j) = Nat.pow 10 i * 10 * Nat.pow 10 j :=
      Nat.pow_add 10 (i + 1) j
    rw [hsplit, ← Nat.mul_assoc, ← Nat.mul_assoc] at h ⊢
    have hlt := lt_of_mul_lt_mul_right h (Nat.zero_le _)
    have hle : n * Nat.pow 10 i ≤ 1797693134862315 := by omega
    have hmul := Nat.mul_le_mul_right (10 * Nat.pow 10 j) hle
    rwa [← Nat.mul_assoc] at hmul

/-- The shortest decimal depends on the significand and the exponent alone. -/
theorem shortest_congr {x y : Binary64} (hsignificand : x.significand = y.significand)
    (hexponent : x.exponent = y.exponent) (tie : Tie) : x.shortest tie = y.shortest tie := by
  rw [shortest, shortest, interval, interval, hsignificand, hexponent]

theorem shortest_largest {x : Binary64} (h : x.Largest) :
    x.shortest .toEven = ⟨17976931348623157, 292⟩ := by
  have hmax : shortest .toEven ⟨0x7FEFFFFFFFFFFFFF⟩ = ⟨17976931348623157, 292⟩ := by decide +kernel
  rw [← hmax]
  exact shortest_congr (h.1.trans (by decide)) (h.2.trans (by decide)) .toEven

theorem digits_lt_of_not_largest {x : Binary64} (hfinite : x.isFinite = true)
    (hx : 0 < x.significand) (h : ¬ x.Largest) {n k j : ℕ} (hj : j = 292)
    (hcovers : x.interval.Covers (n * 10 ^ k)) :
    n * Nat.pow 10 k < 17976931348623157 * Nat.pow 10 j := by
  obtain ⟨i, hi, hlt⟩ : ∃ i : ℕ, (i : ℤ) = 970 ∧
      (2 ^ 54 - 3) * Nat.pow 2 i < 17976931348623157 * Nat.pow 10 j := by
    subst hj
    exact ⟨970, rfl, by decide +kernel⟩
  have hle := (covers_bounds hx hcovers).2.trans (size_add_half_le_of_not_largest hfinite h)
  rw [← hi, zpow_natCast] at hle
  have hcast : ((n * Nat.pow 10 k : ℕ) : ℚ) ≤ ((2 ^ 54 - 3) * Nat.pow 2 i : ℕ) := by
    rw [Nat.cast_mul, Nat.cast_mul, cast_pow, cast_pow]
    norm_num
    norm_num at hle
    exact hle
  exact lt_of_le_of_lt (Nat.cast_le.mp hcast) hlt

/-- The factors of a decimal that is written for a number have a product in range. -/
theorem product_lt_overflow {x : Binary64} (hfinite : x.isFinite = true) (hx : 0 < x.significand)
    (hexponent : 0 ≤ (x.shortest .toEven).written.exponent) :
    (ofNat (x.shortest .toEven).written.digits).size *
      (powerOfTen (x.shortest .toEven).written.exponent.toNat).size < overflow := by
  by_cases hlargest : x.Largest
  · have hwritten : (x.shortest .toEven).written = ⟨17976931348623157, 292⟩ := by
      rw [shortest_largest hlargest]
      rfl
    rw [hwritten]
    exact last_product_lt (by decide) le_rfl
  · have hrange := (inRange_shortest hfinite hx .toEven).written
    have hcovers := (shortest_spec hx .toEven).1
    rw [← Decimal.value_written] at hcovers
    generalize (x.shortest .toEven).written = d at *
    have hvalue : d.value = d.digits * 10 ^ d.exponent.toNat := by
      rw [Decimal.value, ← zpow_natCast, Int.toNat_of_nonneg hexponent]
    rw [hvalue] at hcovers
    have hn := Nat.pos_of_ne_zero hrange.digits_ne
    have hk : d.exponent.toNat ≤ 308 := by
      have hle := hrange.exponent_le
      omega
    generalize d.exponent.toNat = k at *
    obtain ⟨j, hj⟩ : ∃ j, j = 292 := ⟨_, rfl⟩
    have hlt := digits_lt_of_not_largest hfinite hx hlargest hj hcovers
    rcases below_or_last hrange.digits_le hlt with hbelow | ⟨rfl, hlow, hhigh⟩
    · exact product_lt_of_le hk hn hrange.digits_le (by omega) hbelow
    · rw [hj]
      exact last_product_lt hlow (by omega)

end Binary64

namespace Json

open Binary64

/-! ### The reader -/

variable {d : Decimal}

theorem magnitude_ne_zero {x : Binary64} (h : 0 < x.size) : x.magnitude ≠ 0 := by
  intro hzero
  rw [size_eq, hzero, grid, if_pos (by decide)] at h
  norm_num at h

theorem scaled?_up {x : Binary64} {e : ℤ} {n : ℕ} (hlow : 0 ≤ e) (hhigh : e ≤ 308)
    (hfinite : (x.mul (powerOfTen e.toNat)).isFinite = true) :
    scaled? (n + 1) x e = some (x.mul (powerOfTen e.toNat)) := by
  rw [scaled?, if_pos (by omega), if_pos hlow]
  exact if_pos hfinite

theorem scaled?_down {x : Binary64} {e : ℤ} {n : ℕ} (hlow : -308 ≤ e) (hhigh : e < 0) :
    scaled? (n + 1) x e = some (x.div (powerOfTen e.natAbs)) := by
  rw [scaled?, if_pos (by omega), if_neg (by omega)]

theorem scaled?_far_down {x : Binary64} {e : ℤ} {n : ℕ} (he : e < -308) (hx : 0 < x.size) :
    scaled? (n + 1) x e = scaled? n (x.div (powerOfTen 308)) (e + 308) := by
  rw [scaled?, if_neg (by omega), if_neg (magnitude_ne_zero hx), if_neg (by omega)]

theorem div_ten_pow (r : ℚ) (k : ℕ) : r / 10 ^ k = r * 10 ^ (-(k : ℤ)) := by
  rw [zpow_neg, zpow_natCast, div_eq_mul_inv]

/-- What is made of a decimal in range is a finite number, a few roundings away from it. -/
theorem scaled?_spec (h : d.InRange) (hup : 0 ≤ d.exponent →
      (ofNat d.digits).size * (powerOfTen d.exponent.toNat).size < overflow) :
    ∃ y, scaled? (d.exponent.natAbs / 308 + 1) (ofNat d.digits) d.exponent = some y ∧
      y.isFinite = true ∧ y.negative = false ∧ Near 12 d.value y.size := by
  have hdigits := Nat.pos_of_ne_zero h.digits_ne
  have hclose := close_ofNat hdigits h.digits_le
  have hsize : (ofNat d.digits).size ≤ 10 ^ 18 := by
    have hcast : (d.digits : ℚ) ≤ 10 ^ 17 := by exact_mod_cast h.digits_le
    have hupper := hclose.upper
    norm_num at hupper ⊢
    linarith
  have hge := h.exponent_ge
  have hle := h.exponent_le
  rcases (by omega : 0 ≤ d.exponent ∨ -308 ≤ d.exponent ∧ d.exponent < 0 ∨ d.exponent < -308)
    with hcase | ⟨hlow, hneg⟩ | hfar
  · obtain ⟨hfinite, hsign, hnear⟩ := near_mul (by omega) hdigits h.digits_le (hup hcase)
    refine ⟨_, scaled?_up hcase hle hfinite, hfinite, hsign, ?_⟩
    have hvalue : d.value = d.digits * 10 ^ d.exponent.toNat := by
      rw [Decimal.value, ← zpow_natCast, Int.toNat_of_nonneg hcase]
    rw [hvalue]
    exact hnear.mono (by positivity) (by decide)
  · obtain ⟨hfinite, hsign, hnear⟩ := near_div (k := d.exponent.natAbs) (by omega) (by decide)
      (Nat.cast_nonneg _) hsize (negative_ofNat _) hclose.near
    refine ⟨_, scaled?_down hlow hneg, hfinite, hsign, ?_⟩
    have hvalue : d.value = d.digits / 10 ^ d.exponent.natAbs := by
      rw [Decimal.value, div_ten_pow, Int.ofNat_natAbs_of_nonpos hneg.le, neg_neg]
    rw [hvalue]
    exact hnear.mono (by positivity) (by decide)
  · obtain ⟨-, hsign, hnear⟩ := near_div (k := 308) le_rfl (by decide) (Nat.cast_nonneg _) hsize
      (negative_ofNat _) hclose.near
    have hsmall : (d.digits : ℚ) / 10 ^ 308 ≤ 10 ^ 17 := by
      have hcast : (d.digits : ℚ) ≤ 10 ^ 17 := by exact_mod_cast h.digits_le
      exact (div_le_self (Nat.cast_nonneg _) (one_le_pow₀ (by norm_num))).trans hcast
    obtain ⟨hfinite, hsign, hnear⟩ := near_div (k := (d.exponent + 308).natAbs) (by omega)
      (by decide) (by positivity) (hnear.le_of_le hsmall) hsign hnear
    refine ⟨_, ?_, hfinite, hsign, ?_⟩
    · rw [show d.exponent.natAbs / 308 + 1 = 0 + 1 + 1 by omega,
        scaled?_far_down hfar (hclose.pos (by exact_mod_cast hdigits)),
        scaled?_down (by omega) (by omega)]
    · have hvalue : d.value = d.digits / 10 ^ 308 / 10 ^ (d.exponent + 308).natAbs := by
        rw [Decimal.value, div_ten_pow, div_ten_pow, mul_assoc, ← zpow_add₀ (by norm_num)]
        congr 2
        omega
      rw [hvalue]
      exact hnear

/-! ### Few digits -/

/-- Exact factors are multiplied or divided with a single rounding, to the number. -/
theorem scaled?_exact {x : Binary64} (hfinite : x.isFinite = true) (hx : 0 < x.significand)
    (h : d.Exact) (hcovers : x.interval.Covers d.value) :
    scaled? (d.exponent.natAbs / 308 + 1) (ofNat d.digits) d.exponent
      = some (ofSign false x.magnitude) := by
  have hexponent := h.2
  have hround : ∀ {num den : ℕ}, 0 < den → (num : ℚ) / den = d.value →
      ofRatio false num den = ofSign false x.magnitude := by
    intro num den hden hvalue
    rw [← hvalue] at hcovers
    rw [ofRatio, nearest_of_covers hx hfinite hden hcovers]
  by_cases hneg : d.exponent < 0
  · have hsize := size_powerOfTen (k := d.exponent.natAbs) hexponent
    obtain ⟨num, den, hden, hratio, hdiv⟩ := div_eq_ofRatio (ofNat d.digits)
      (y := powerOfTen d.exponent.natAbs) (by rw [hsize]; positivity)
    rw [scaled?_down (by omega) hneg, hdiv, negative_ofNat, negative_powerOfTen (by omega)]
    refine congrArg some (hround hden ?_)
    rw [hratio, hsize, size_ofNat h.1, Decimal.value, div_ten_pow,
      Int.ofNat_natAbs_of_nonpos (by omega), neg_neg]
  · have hnonneg : 0 ≤ d.exponent := by omega
    have hsize := size_powerOfTen (k := d.exponent.toNat) (by omega)
    obtain ⟨num, den, hden, hratio, hmul⟩ := mul_eq_ofRatio (ofNat d.digits)
      (powerOfTen d.exponent.toNat)
    rw [negative_ofNat, negative_powerOfTen (by omega)] at hmul
    have hproduct : (ofNat d.digits).mul (powerOfTen d.exponent.toNat)
        = ofSign false x.magnitude := by
      refine hmul.trans (hround hden ?_)
      rw [hratio, hsize, size_ofNat h.1, Decimal.value, ← zpow_natCast,
        Int.toNat_of_nonneg hnonneg]
    rw [scaled?_up hnonneg (by omega), hproduct]
    rw [hproduct, Binary64.isFinite, magnitude_ofSign false x.magnitude_lt]
    exact hfinite

/-! ### What the text of a number is read as -/

/-- Without the fault of a number out of range, what is assembled is a number. -/
theorem binary64_of_anyNumber {ε : Type} {s : Bytes} {negative : Bool} {n : ℕ} {e : ℤ}
    {x : Binary64} (h : anyNumber (ε := ε) s = assemble negative n e [])
    (hscaled : scaled? (e.natAbs / 308 + 1) (ofNat n) e = some x) :
    binary64 (ε := ε) s = .ok (if negative then x.neg else x, []) := by
  rw [binary64, h, assemble, hscaled]

/-- The text of a zero is read as the zero of its sign. -/
theorem binary64_number_zero {ε : Type} {x : Binary64} (h : x.significand = 0) :
    binary64 (ε := ε) (number x) = .ok (x, []) := by
  rw [← x.ofSign_self, magnitude_of_significand h]
  cases x.negative <;> rfl

/-- **The text of a finite number is read as a finite number** of the same sign, a few roundings
away from it; with few digits and a small exponent it is the number. -/
theorem binary64_number {ε : Type} {x : Binary64} (hfinite : x.isFinite = true) :
    ∃ y : Binary64, binary64 (ε := ε) (number x) = .ok (y, []) ∧ y.isFinite = true ∧
      y.negative = x.negative ∧ Near 14 x.size y.size ∧
      ((x.shortest .toEven).written.Exact → y = x) := by
  obtain hzero | hx := Nat.eq_zero_or_pos x.significand
  · exact ⟨x, binary64_number_zero hzero, hfinite, rfl, near_self x.size_nonneg _, fun _ => rfl⟩
  · have hread := anyNumber_number (ε := ε) hfinite hx
    have hcovers := (shortest_spec hx .toEven).1
    rw [← Decimal.value_written] at hcovers
    obtain ⟨z, hscaled, hzfinite, hzsign, hnear⟩ :=
      scaled?_spec (inRange_shortest hfinite hx .toEven).written (product_lt_overflow hfinite hx)
    refine ⟨_, binary64_of_anyNumber hread hscaled, ?_, ?_, ?_, fun hexact => ?_⟩
    · split
      · rw [isFinite_neg, hzfinite]
      · exact hzfinite
    · cases hneg : x.negative
      · exact hzsign
      · rw [if_pos rfl, negative_neg, hzsign]
        rfl
    · have hsize : (if x.negative then z.neg else z).size = z.size := by
        split
        · exact z.size_neg
        · rfl
      rw [hsize]
      exact Near.trans (n := 1) (m := 12) x.size_nonneg (by decide) (near_of_covers hx hcovers)
        hnear
    · have hz := Option.some.inj (hscaled.symm.trans (scaled?_exact hfinite hx hexact hcovers))
      have hmagnitude : z.magnitude = x.magnitude := by
        rw [hz, magnitude_ofSign false x.magnitude_lt]
      cases hneg : x.negative
      · exact ext_magnitude (hzsign.trans hneg.symm) hmagnitude
      · refine ext_magnitude ?_ (z.magnitude_neg.trans hmagnitude)
        rw [if_pos rfl, negative_neg, hzsign, hneg]
        rfl

/-- Only a finite number has a text that is read as a number. -/
theorem isFinite_of_binary64_number {ε : Type} {x : Binary64} {p : Binary64 × Bytes}
    (h : binary64 (ε := ε) (number x) = .ok p) : x.isFinite = true := by
  by_contra hfinite
  rw [number, if_neg hfinite] at h
  cases h

end Json

end Telemetry
