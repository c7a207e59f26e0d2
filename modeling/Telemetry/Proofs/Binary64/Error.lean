import Telemetry.Proofs.Binary64.Computation
import Telemetry.Proofs.Binary64.Shortest

/-!
# Accumulated error

A computation of several steps is off by the errors of its steps. They are counted in units of one
rounding: an error of a `2 ^ 53`rd part, and half of the least positive number, which only matters
where the result is small. Numbers that are not small have errors of the first kind only, and these
may be multiplied.

## Main definitions

* `Telemetry.Binary64.Near` — a rational is a given number of roundings away from another
* `Telemetry.Binary64.Close` — the same in proportion alone

## Main results

* `Telemetry.Binary64.Near.trans`, `Telemetry.Binary64.Near.div` — errors add up
* `Telemetry.Binary64.Close.mul` — the error of a product
* `Telemetry.Binary64.near_of_covers` — the interval of a number is within one rounding
-/

namespace Telemetry.Binary64

variable {n m : ℕ} {r s t : ℚ}

/-- A rational is at most `n` roundings away from another. -/
def Near (n : ℕ) (r s : ℚ) : Prop := |s - r| ≤ n * (r / 2 ^ 53 + halfLeast)

/-- A rational is at most `n` roundings away from another, none of which is that of a small
number. -/
def Close (n : ℕ) (r s : ℚ) : Prop := |s - r| ≤ n * (r / 2 ^ 53)

theorem Rounds.near {z : Binary64} (h : Rounds r z) : Near 1 r z.size := by
  rw [Near, Nat.cast_one, one_mul]
  exact h.error

theorem Close.near (h : Close n r s) : Near n r s := by
  refine h.trans (mul_le_mul_of_nonneg_left ?_ (Nat.cast_nonneg n))
  exact le_add_of_nonneg_right halfLeast_pos.le

theorem near_self (hr : 0 ≤ r) (n : ℕ) : Near n r r := by
  rw [Near, sub_self, abs_zero]
  have := halfLeast_pos
  positivity

theorem Near.mono (hr : 0 ≤ r) (hle : n ≤ m) (h : Near n r s) : Near m r s := by
  refine le_trans h (mul_le_mul_of_nonneg_right (by exact_mod_cast hle) ?_)
  have := halfLeast_pos
  positivity

/-- A few roundings do not change an order of magnitude. -/
theorem Near.le_of_le (h : Near 7 r s) (hr : r ≤ 10 ^ 17) : s ≤ 10 ^ 18 := by
  have hle := (abs_le.mp h).2
  have hsmall : halfLeast ≤ 2 ^ (0 : ℤ) := zpow_le_zpow_right₀ (by norm_num) (by norm_num)
  norm_num at hle hsmall ⊢
  linarith

/-- From one on, the absolute part of the error is the smaller one. -/
theorem Rounds.close {z : Binary64} (h : Rounds r z) (hr : 1 ≤ r) : Close 2 r z.size := by
  refine h.error.trans ?_
  have hsmall : halfLeast ≤ 2 ^ (-53 : ℤ) := zpow_le_zpow_right₀ (by norm_num) (by norm_num)
  norm_num at hsmall ⊢
  linarith

theorem Near.trans (hr : 0 ≤ r) (hcount : n * m ≤ 2 ^ 53) (h : Near n r s) (h' : Near m s t) :
    Near (n + m + 1) r t := by
  have hη := halfLeast_pos
  rw [Near] at h h' ⊢
  generalize halfLeast = η at *
  obtain ⟨e, he⟩ : ∃ e, r / 2 ^ 53 + η = e := ⟨_, rfl⟩
  have hepos : 0 ≤ e := by
    rw [← he]
    positivity
  have hs : s / 2 ^ 53 + η ≤ e + n * e / 2 ^ 53 := by
    have hle := (abs_le.mp h).2
    rw [he] at hle
    rw [← he] at hle
    rw [← he, add_right_comm, ← add_div]
    gcongr
    rw [he] at hle ⊢
    linarith
  have hcount : (m : ℚ) * (n * e / 2 ^ 53) ≤ e := by
    have hcast : (n : ℚ) * m ≤ 2 ^ 53 := by exact_mod_cast hcount
    calc (m : ℚ) * (n * e / 2 ^ 53) = n * m * (e / 2 ^ 53) := by ring
      _ ≤ 2 ^ 53 * (e / 2 ^ 53) := by gcongr
      _ = e := by field_simp
  rw [he] at h ⊢
  calc |t - r| ≤ |t - s| + |s - r| := abs_sub_le _ _ _
    _ ≤ m * (s / 2 ^ 53 + η) + n * e := add_le_add h' h
    _ ≤ m * (e + n * e / 2 ^ 53) + n * e := by gcongr
    _ ≤ (n + m + 1 : ℕ) * e := by
      push_cast
      linarith

/-- What is close to a number is a little smaller at least. -/
theorem Close.lower (h : Close 2 r s) : r * (1 - 2 / 2 ^ 53) ≤ s := by
  have hle := (abs_le.mp h).1
  push_cast at hle
  linarith

theorem Close.pos (hr : 0 < r) (h : Close 2 r s) : 0 < s := by
  refine lt_of_lt_of_le (mul_pos hr ?_) h.lower
  norm_num

theorem Close.upper (h : Close 2 r s) : s ≤ r * (1 + 2 / 2 ^ 53) := by
  have hle := (abs_le.mp h).2
  push_cast at hle
  linarith

/-- A divisor from one on adds the error of its own. -/
theorem Near.div {d p : ℚ} (hr : 0 ≤ r) (hd : 1 ≤ d) (hcount : n ≤ 100) (h : Near n r s)
    (hp : Close 2 d p) : Near (n + 3) (r / d) (s / p) := by
  have hη := halfLeast_pos
  have hlower := hp.lower
  have hdPos : 0 < d := by linarith
  have hpPos := hp.pos hdPos
  rw [Near] at h ⊢
  generalize halfLeast = η at *
  have hquotient : s / p - r / d = (s - r - r / d * (p - d)) / p := by
    field_simp
    ring
  have hdivisor : |r / d * (p - d)| ≤ 2 * (r / 2 ^ 53) := by
    rw [abs_mul, abs_of_nonneg (by positivity)]
    calc r / d * |p - d| ≤ r / d * ((2 : ℕ) * (d / 2 ^ 53)) := by
          gcongr
          exact hp
      _ = 2 * (r / 2 ^ 53) := by
        push_cast
        field_simp
  have hunits : r / 2 ^ 53 + η ≤ (r / d / 2 ^ 53 + η) * d := by
    have hcancel : r / d / 2 ^ 53 * d = r / 2 ^ 53 := by field_simp
    rw [add_mul, hcancel]
    gcongr
    exact le_mul_of_one_le_right hη.le hd
  have hcast : (n : ℚ) ≤ 100 := by exact_mod_cast hcount
  have hcounts : (n : ℚ) + 2 ≤ (n + 3) * (1 - 2 / 2 ^ 53) := by
    norm_num
    linarith
  rw [hquotient, abs_div, abs_of_pos hpPos, div_le_iff₀ hpPos]
  calc |s - r - r / d * (p - d)| ≤ |s - r| + |r / d * (p - d)| := abs_sub _ _
    _ ≤ n * (r / 2 ^ 53 + η) + 2 * (r / 2 ^ 53) := add_le_add h hdivisor
    _ ≤ (n + 2) * (r / 2 ^ 53 + η) := by linarith
    _ ≤ (n + 3) * (1 - 2 / 2 ^ 53) * ((r / d / 2 ^ 53 + η) * d) := by gcongr
    _ = (n + 3 : ℕ) * (r / d / 2 ^ 53 + η) * (d * (1 - 2 / 2 ^ 53)) := by
      push_cast
      ring
    _ ≤ (n + 3 : ℕ) * (r / d / 2 ^ 53 + η) * p := by gcongr

theorem Close.mul {d p : ℚ} (hr : 0 ≤ r) (hd : 0 ≤ d) (h : Close 2 r s) (hp : Close 2 d p) :
    Close 5 (r * d) (s * p) := by
  have hupper := hp.upper
  rw [Close] at h hp ⊢
  push_cast at h hp ⊢
  have hpPos : 0 ≤ p := by
    have hlower := (abs_le.mp hp).1
    linarith
  calc |s * p - r * d| = |(s - r) * p + r * (p - d)| := by
        congr 1
        ring
    _ ≤ |s - r| * p + r * |p - d| := by
      refine (abs_add_le _ _).trans (add_le_add ?_ ?_)
      · rw [abs_mul, abs_of_nonneg hpPos]
      · rw [abs_mul, abs_of_nonneg hr]
    _ ≤ 2 * (r / 2 ^ 53) * (d * (1 + 2 / 2 ^ 53)) + r * (2 * (d / 2 ^ 53)) := by gcongr
    _ ≤ 5 * (r * d / 2 ^ 53) := by
      have hnonneg : 0 ≤ r * d := mul_nonneg hr hd
      norm_num
      linarith

/-! ### The interval of a number -/

theorem full_size (x : Binary64) :
    x.exponent = -1074 ∨ exponentWeight * (2 : ℚ) ^ x.exponent ≤ x.size := by
  refine x.significand_full.imp id fun hfull => ?_
  rw [size]
  gcongr

theorem covers_bounds {x : Binary64} (hx : 0 < x.significand) (h : x.interval.Covers r) :
    x.size - 2 ^ x.exponent / 2 ≤ r ∧ r ≤ x.size + 2 ^ x.exponent / 2 := by
  obtain ⟨hlow, -, hhigh⟩ := interval_spec hx
  obtain ⟨hbelow, habove⟩ := h.bounds
  have hreach := x.reachBelow_le
  rw [hlow] at hbelow
  rw [hhigh] at habove
  rw [half_zpow]
  exact ⟨by linarith, habove⟩

theorem near_of_covers {x : Binary64} (hx : 0 < x.significand) (h : x.interval.Covers r) :
    Near 1 x.size r := by
  obtain ⟨hbelow, habove⟩ := covers_bounds hx h
  have hhalf := half_unit_le x.size_nonneg x.full_size
  rw [Near, Nat.cast_one, one_mul]
  exact (abs_le.mpr ⟨by linarith, by linarith⟩).trans hhalf

/-- No decimal in the interval of a number is zero. -/
theorem pos_of_covers {x : Binary64} (hx : 0 < x.significand) (h : x.interval.Covers r) :
    halfLeast ≤ r := by
  have hbelow := (covers_bounds hx h).1
  have hone : (1 : ℚ) ≤ x.significand := by exact_mod_cast hx
  have hunit : (0 : ℚ) < 2 ^ x.exponent := by positivity
  have hsize : 2 ^ x.exponent ≤ x.size := le_mul_of_one_le_left hunit.le hone
  have hleast : halfLeast ≤ 2 ^ x.exponent / 2 := by
    rw [half_zpow, halfLeast]
    exact zpow_le_zpow_right₀ (by norm_num) (by linarith [x.exponent_ge])
  linarith

/-! ### The largest numbers -/

theorem exponent_le {x : Binary64} (hfinite : x.isFinite = true) : x.exponent ≤ 971 := by
  have hlt : x.magnitude < infinite := of_decide_eq_true hfinite
  have hdiv : x.magnitude / exponentWeight ≤ 2046 := by
    simp only [infinite, exponentWeight] at hlt ⊢
    omega
  rw [exponent]
  generalize x.magnitude / exponentWeight = e at *
  dsimp only [Int.ofNat_eq_natCast]
  split <;> omega

/-- How far the intervals reach up, from a bound on the significand at the largest exponent. -/
theorem size_add_half_le {x : Binary64} (hfinite : x.isFinite = true) {k : ℕ}
    (hk : exponentWeight ≤ k) (h : x.exponent = 971 → x.significand ≤ k) :
    x.size + 2 ^ x.exponent / 2 ≤ (2 * k + 1) * 2 ^ (970 : ℤ) := by
  have hle := exponent_le hfinite
  have hlt : (x.significand : ℚ) + 1 ≤ 2 * exponentWeight := by exact_mod_cast x.significand_lt
  have hcast : (exponentWeight : ℚ) ≤ k := by exact_mod_cast hk
  have hsplit : x.size + 2 ^ x.exponent / 2 = (x.significand + 1 / 2) * 2 ^ x.exponent := by
    rw [size]
    ring
  rw [hsplit]
  rcases (by omega : x.exponent = 971 ∨ x.exponent ≤ 970) with hq | hq
  · have hm : (x.significand : ℚ) ≤ k := by exact_mod_cast h hq
    calc ((x.significand : ℚ) + 1 / 2) * 2 ^ x.exponent ≤ (k + 1 / 2) * 2 ^ x.exponent := by gcongr
      _ = (2 * k + 1) * 2 ^ (970 : ℤ) := by
        have hdouble : 2 * (2 : ℚ) ^ (970 : ℤ) = 2 ^ (971 : ℤ) := two_mul_half 971
        rw [hq, ← hdouble]
        ring
  · have hpow : (2 : ℚ) ^ x.exponent ≤ 2 ^ (970 : ℤ) := zpow_le_zpow_right₀ (by norm_num) hq
    have hfactor : (x.significand : ℚ) + 1 / 2 ≤ 2 * k + 1 := by linarith
    exact mul_le_mul hfactor hpow (zpow_nonneg (by norm_num) _) (by linarith)

theorem size_add_half_le_overflow {x : Binary64} (hfinite : x.isFinite = true) :
    x.size + 2 ^ x.exponent / 2 ≤ overflow := by
  have hle := size_add_half_le hfinite (k := 2 * exponentWeight - 1) (by decide)
    fun _ => Nat.le_sub_one_of_lt x.significand_lt
  refine hle.trans (le_of_eq ?_)
  rw [overflow]
  congr 1
  norm_num [exponentWeight]

/-- The largest number, sign apart. -/
def Largest (x : Binary64) : Prop := x.significand = 2 * exponentWeight - 1 ∧ x.exponent = 971

theorem size_add_half_le_of_not_largest {x : Binary64} (hfinite : x.isFinite = true)
    (h : ¬ x.Largest) : x.size + 2 ^ x.exponent / 2 ≤ (2 ^ 54 - 3) * 2 ^ (970 : ℤ) := by
  have hle := size_add_half_le hfinite (k := 2 * exponentWeight - 2) (by decide) fun hq => by
    have hne : x.significand ≠ 2 * exponentWeight - 1 := fun hm => h ⟨hm, hq⟩
    have hlt := x.significand_lt
    omega
  refine hle.trans (le_of_eq ?_)
  congr 1
  norm_num [exponentWeight]

/-! ### Computations without an error -/

/-- What is a number of the format is rounded to itself. -/
theorem grid_nearest {num den k : ℕ} (hden : 0 < den) {q : ℤ} (hk : k < 2 * exponentWeight)
    (hq : -1074 ≤ q) (hratio : (num : ℚ) / den = k * 2 ^ q) (h : (num : ℚ) / den < overflow) :
    grid (nearest num den) = num / den := by
  rcases Nat.eq_zero_or_pos num with rfl | hnum
  · rw [nearest, if_pos rfl, grid, if_pos (by decide)]
    norm_num
  · obtain ⟨q', m, hnearest, hq', hm, hfull, hmin, herror⟩ := nearest_spec hnum hden
    have hfinite := pattern_lt_infinite hm hmin herror h
    rw [hnearest, min_eq_right hfinite.le, grid_eq hq' hm hfull]
    rw [hratio] at hmin herror ⊢
    -- the grid of the ratio's own exponent is a finer one
    have hle : q' ≤ q := by
      rcases hmin with rfl | hmin
      · exact hq
      · have hkcast : (k : ℚ) < 2 * exponentWeight := by exact_mod_cast hk
        have hweight : (0 : ℚ) < exponentWeight := by norm_num [exponentWeight]
        have hlt : exponentWeight * (2 : ℚ) ^ q' < exponentWeight * 2 ^ (q + 1) := by
          rw [zpow_add_one₀ (by norm_num)]
          calc exponentWeight * (2 : ℚ) ^ q' ≤ k * 2 ^ q := hmin
            _ < 2 * exponentWeight * 2 ^ q := by gcongr
            _ = exponentWeight * (2 ^ q * 2) := by ring
        have hpow := lt_of_mul_lt_mul_left hlt hweight.le
        exact Int.lt_add_one_iff.mp ((zpow_lt_zpow_iff_right₀ (by norm_num)).mp hpow)
    obtain ⟨j, hj⟩ : ∃ j : ℕ, q = q' + j := ⟨(q - q').toNat, by omega⟩
    have hpos : (0 : ℚ) < 2 ^ q' := by positivity
    have hsplit : (k : ℚ) * 2 ^ q = (k * 2 ^ j : ℕ) * 2 ^ q' := by
      rw [hj, zpow_add₀ (by norm_num), zpow_natCast]
      push_cast
      ring
    rw [hsplit, ← sub_mul, abs_mul, abs_of_pos hpos] at herror
    rw [hsplit]
    have hint : |(m : ℤ) - (k * 2 ^ j : ℕ)| < 1 := by
      have hhalf : |(m : ℚ) - (k * 2 ^ j : ℕ)| ≤ 1 / 2 := by
        refine le_of_mul_le_mul_right ?_ hpos
        linarith
      have hcast : ((|(m : ℤ) - (k * 2 ^ j : ℕ)| : ℤ) : ℚ) < 1 := by
        push_cast at hhalf ⊢
        linarith
      exact_mod_cast hcast
    rw [Int.abs_lt_one_iff, sub_eq_zero, Nat.cast_inj] at hint
    rw [hint]

/-- What is a number of the format is computed without an error. -/
theorem size_ofRatio (negative : Bool) {num den k : ℕ} (hden : 0 < den) {q : ℤ}
    (hk : k < 2 * exponentWeight) (hq : -1074 ≤ q) (hratio : (num : ℚ) / den = k * 2 ^ q)
    (h : (num : ℚ) / den < overflow) : (ofRatio negative num den).size = num / den := by
  have hmagnitude : (ofRatio negative num den).magnitude = nearest num den :=
    magnitude_ofSign negative (nearest_lt_signWeight num den)
  rw [size_eq, hmagnitude]
  exact grid_nearest hden hk hq hratio h

/-- A natural number of 53 bits is a number of the format. -/
theorem size_ofNat {n : ℕ} (hn : n < 2 * exponentWeight) : (ofNat n).size = n := by
  have hlt : (n : ℚ) < overflow := by
    calc (n : ℚ) < (10 : ℕ) ^ 16 := by
          exact_mod_cast hn.trans (by decide : 2 * exponentWeight < 10 ^ 16)
      _ < overflow := by exact_mod_cast ten_pow_lt_overflow (by decide : 16 ≤ 308)
  have hratio : (n : ℚ) / (1 : ℕ) = n := by rw [Nat.cast_one, div_one]
  have hsize := size_ofRatio false Nat.one_pos (q := 0) hn (by decide)
    (by rw [hratio, zpow_zero, mul_one]) (by rwa [hratio])
  rwa [hratio] at hsize

theorem size_powerOfTen {k : ℕ} (hk : k ≤ 22) : (powerOfTen k).size = 10 ^ k := by
  have hfive : Nat.pow 5 k < 2 * exponentWeight :=
    lt_of_le_of_lt (Nat.pow_le_pow_right (by decide) hk)
      (by decide : Nat.pow 5 22 < 2 * exponentWeight)
  have hratio : ((Nat.pow 10 k : ℕ) : ℚ) / (1 : ℕ) = 10 ^ k := by
    rw [Nat.cast_one, div_one]
    exact cast_pow 10 k
  have hsplit : (10 : ℚ) ^ k = (Nat.pow 5 k : ℕ) * 2 ^ (k : ℤ) := by
    rw [cast_pow, zpow_natCast, Nat.cast_ofNat, ← mul_pow]
    norm_num
  rw [powerOfTen_eq (by omega)]
  refine (size_ofRatio false Nat.one_pos hfive (by omega) (hratio.trans hsplit) ?_).trans hratio
  rw [hratio]
  exact ten_pow_lt_overflow (by omega)

end Telemetry.Binary64
