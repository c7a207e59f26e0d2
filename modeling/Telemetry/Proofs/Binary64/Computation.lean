import Telemetry.Proofs.Binary64.Rounding

/-!
# Computations with one rounding

Products, quotients, natural numbers and powers of ten are ratios that are rounded once. Within the
range the outcome is a finite number of the sign that the factors make, and its error is that of
rounding.

## Main definitions

* `Telemetry.Binary64.Rounds` — a finite number that a rational is rounded to, as far as its error

## Main results

* `Telemetry.Binary64.rounds_ofRatio` — the error of any computation that stays in range
* `Telemetry.Binary64.rounds_mul`, `Telemetry.Binary64.rounds_div` — those of the operations
* `Telemetry.Binary64.rounds_powerOfTen` — that of a power of ten
-/

namespace Telemetry.Binary64

/-! ### Signs -/

theorem magnitude_ofSign {n : ℕ} (negative : Bool) (hn : n < signWeight) :
    (ofSign negative n).magnitude = n := by
  rw [magnitude, ofSign, UInt64.toNat_ofNat']
  simp only [signWeight] at hn ⊢
  split <;> omega

theorem negative_ofSign {n : ℕ} (negative : Bool) (hn : n < signWeight) :
    (ofSign negative n).negative = negative := by
  rw [Binary64.negative, ofSign, UInt64.toNat_ofNat']
  simp only [signWeight] at hn ⊢
  cases negative
  · simp
    omega
  · simp
    omega

theorem infinite_lt_signWeight : infinite < signWeight := by decide

theorem ofSign_self (x : Binary64) : ofSign x.negative x.magnitude = x := by
  obtain ⟨bits⟩ := x
  have hlt : bits.toNat < 2 ^ 64 := bits.toNat_lt
  rw [ofSign, Binary64.mk.injEq, ← UInt64.toNat_inj, UInt64.toNat_ofNat', magnitude,
    Binary64.negative]
  dsimp only
  by_cases hneg : signWeight ≤ bits.toNat
  · rw [if_pos (decide_eq_true hneg)]
    simp only [signWeight] at hneg ⊢
    omega
  · rw [if_neg (by simpa using hneg)]
    simp only [signWeight] at hneg ⊢
    omega

theorem ext_magnitude {x y : Binary64} (hsign : x.negative = y.negative)
    (hmagnitude : x.magnitude = y.magnitude) : x = y := by
  rw [← x.ofSign_self, ← y.ofSign_self, hsign, hmagnitude]

section

variable (x : Binary64)

theorem magnitude_lt : x.magnitude < signWeight := Nat.mod_lt _ (by decide)

theorem magnitude_neg : x.neg.magnitude = x.magnitude := magnitude_ofSign _ x.magnitude_lt

theorem negative_neg : x.neg.negative = !x.negative := negative_ofSign _ x.magnitude_lt

theorem size_neg : x.neg.size = x.size := by rw [size_eq, size_eq, magnitude_neg]

theorem isFinite_neg : x.neg.isFinite = x.isFinite := by
  rw [Binary64.isFinite, Binary64.isFinite, magnitude_neg]

end

/-! ### Computations -/

/-- A number that is the outcome of rounding a rational, as far as its error. -/
structure Rounds (r : ℚ) (z : Binary64) : Prop where
  isFinite : z.isFinite = true
  error : |z.size - r| ≤ r / 2 ^ 53 + halfLeast

theorem nearest_lt_signWeight (num den : ℕ) : nearest num den < signWeight := by
  refine lt_of_le_of_lt ?_ infinite_lt_signWeight
  rcases Nat.eq_zero_or_pos num with rfl | hnum
  · rw [nearest, if_pos rfl]
    exact Nat.zero_le _
  · obtain ⟨⟨n, d⟩, hpair⟩ : ∃ p, shiftRatio num den (ratioExponent num den) = p := ⟨_, rfl⟩
    rw [nearest_eq hnum.ne' rfl hpair]
    exact min_le_left _ _

theorem negative_ofRatio (negative : Bool) (num den : ℕ) :
    (ofRatio negative num den).negative = negative :=
  negative_ofSign negative (nearest_lt_signWeight num den)

theorem rounds_ofRatio (negative : Bool) {num den : ℕ} (hden : 0 < den)
    (h : (num : ℚ) / den < overflow) : Rounds (num / den) (ofRatio negative num den) := by
  obtain ⟨hfinite, herror⟩ := nearest_error hden h
  have hmagnitude : (ofRatio negative num den).magnitude = nearest num den :=
    magnitude_ofSign negative (nearest_lt_signWeight num den)
  refine ⟨?_, ?_⟩
  · rw [Binary64.isFinite, hmagnitude]
    exact decide_eq_true hfinite
  · rw [size_eq, hmagnitude]
    exact herror

theorem rounds_ofNat {n : ℕ} (h : (n : ℚ) < overflow) : Rounds n (ofNat n) := by
  have hratio : (n : ℚ) / (1 : ℕ) = n := by rw [Nat.cast_one, div_one]
  rw [← hratio] at h ⊢
  exact rounds_ofRatio false Nat.one_pos h

/-- A product is a ratio that is rounded. -/
theorem mul_eq_ofRatio (x y : Binary64) : ∃ num den : ℕ, 0 < den ∧
    (num : ℚ) / den = x.size * y.size ∧
    x.mul y = ofRatio (x.negative != y.negative) num den := by
  have hsize : x.size * y.size =
      ((x.significand * y.significand : ℕ) : ℚ) * 2 ^ (x.exponent + y.exponent) := by
    rw [size, size, zpow_add₀ (by norm_num)]
    push_cast
    ring
  rw [mul, hsize]
  generalize x.significand * y.significand = m
  generalize x.exponent + y.exponent = q
  split
  · rename_i hq
    refine ⟨m * Nat.pow 2 q.toNat, 1, Nat.one_pos, ?_, rfl⟩
    rw [Nat.cast_mul, cast_pow_toNat hq, Nat.cast_one, div_one, Nat.cast_ofNat]
  · rename_i hq
    refine ⟨m, Nat.pow 2 (-q).toNat, Nat.pow_pos (by decide), ?_, rfl⟩
    rw [cast_pow_toNat (by omega : 0 ≤ -q), zpow_neg, div_inv_eq_mul, Nat.cast_ofNat]

/-- A quotient is a ratio that is rounded. -/
theorem div_eq_ofRatio (x : Binary64) {y : Binary64} (hy : 0 < y.size) :
    ∃ num den : ℕ, 0 < den ∧ (num : ℚ) / den = x.size / y.size ∧
    x.div y = ofRatio (x.negative != y.negative) num den := by
  have hpos : 0 < y.significand := by
    refine Nat.pos_of_ne_zero fun hzero => ?_
    rw [size, hzero, Nat.cast_zero, zero_mul] at hy
    exact lt_irrefl 0 hy
  have hsize : x.size / y.size =
      (x.significand : ℚ) / y.significand * 2 ^ (x.exponent - y.exponent) := by
    rw [size, size, zpow_sub₀ (by norm_num)]
    field_simp
  rw [div, hsize]
  generalize x.exponent - y.exponent = q
  split
  · rename_i hq
    refine ⟨x.significand * Nat.pow 2 q.toNat, y.significand, hpos, ?_, rfl⟩
    rw [Nat.cast_mul, cast_pow_toNat hq, Nat.cast_ofNat]
    ring
  · rename_i hq
    refine ⟨x.significand, y.significand * Nat.pow 2 (-q).toNat,
      Nat.mul_pos hpos (Nat.pow_pos (by decide)), ?_, rfl⟩
    rw [Nat.cast_mul, cast_pow_toNat (by omega : 0 ≤ -q), zpow_neg, Nat.cast_ofNat]
    field_simp

theorem rounds_mul {x y : Binary64} (h : x.size * y.size < overflow) :
    Rounds (x.size * y.size) (x.mul y) ∧ (x.mul y).negative = (x.negative != y.negative) := by
  obtain ⟨num, den, hden, hratio, hmul⟩ := mul_eq_ofRatio x y
  rw [← hratio] at h ⊢
  rw [hmul]
  exact ⟨rounds_ofRatio _ hden h, negative_ofRatio _ _ _⟩

theorem rounds_div {x y : Binary64} (hy : 0 < y.size) (h : x.size / y.size < overflow) :
    Rounds (x.size / y.size) (x.div y) ∧ (x.div y).negative = (x.negative != y.negative) := by
  obtain ⟨num, den, hden, hratio, hdiv⟩ := div_eq_ofRatio x hy
  rw [← hratio] at h ⊢
  rw [hdiv]
  exact ⟨rounds_ofRatio _ hden h, negative_ofRatio _ _ _⟩

/-! ### Powers of ten -/

/-- The bound of the range is a natural number. Its exponent is named, since the power is not to be
computed. -/
theorem overflow_eq {j : ℕ} (hj : (j : ℤ) = 970) :
    overflow = ((2 ^ 54 - 1) * Nat.pow 2 j : ℕ) := by
  rw [overflow, ← hj, zpow_natCast, Nat.cast_mul, cast_pow, Nat.cast_ofNat]
  congr 1
  norm_num

theorem ten_pow_lt_overflow {k : ℕ} (hk : k ≤ 308) : (10 : ℚ) ^ k < overflow := by
  obtain ⟨n, j, hn, hj, hlast⟩ : ∃ n j : ℕ, k ≤ n ∧ (j : ℤ) = 970 ∧
      Nat.pow 10 n < (2 ^ 54 - 1) * Nat.pow 2 j := ⟨308, 970, hk, rfl, by decide +kernel⟩
  calc (10 : ℚ) ^ k = (Nat.pow 10 k : ℕ) := (cast_pow 10 k).symm
    _ < ((2 ^ 54 - 1) * Nat.pow 2 j : ℕ) :=
      Nat.cast_lt.mpr (lt_of_le_of_lt (Nat.pow_le_pow_right (by decide) hn) hlast)
    _ = overflow := (overflow_eq hj).symm

theorem powerOfTen_eq {k : ℕ} (hk : k ≤ 308) :
    powerOfTen k = ofRatio false (Nat.pow 10 k) 1 := by
  rw [powerOfTen, ofDecimal]
  have hlen : (Nat.toDigits 10 1).length = 1 := by decide
  rw [hlen, if_neg, if_neg, if_pos, Int.toNat_natCast, one_mul]
  · exact Int.natCast_nonneg k
  · omega
  · simp
    omega

theorem rounds_powerOfTen {k : ℕ} (hk : k ≤ 308) : Rounds (10 ^ k) (powerOfTen k) := by
  have hratio : ((Nat.pow 10 k : ℕ) : ℚ) / (1 : ℕ) = 10 ^ k := by
    rw [Nat.cast_one, div_one]
    exact cast_pow 10 k
  rw [powerOfTen_eq hk, ← hratio]
  refine rounds_ofRatio false Nat.one_pos ?_
  rw [hratio]
  exact ten_pow_lt_overflow hk

end Telemetry.Binary64
