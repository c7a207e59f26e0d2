import Telemetry.Binary64.Rounding
import Mathlib.Algebra.Order.Field.Power
import Mathlib.Data.Rat.Cast.Order
import Mathlib.Tactic.FieldSimp
import Mathlib.Tactic.Linarith
import Mathlib.Tactic.NormNum
import Mathlib.Tactic.Positivity
import Mathlib.Tactic.Ring

/-!
# Rounding to the nearest number

A finite number of the format stands for a rational, sign apart: its size. A ratio goes to the
nearest size, and a tie to an even significand. Which exponent that takes is settled by the order
of magnitude of the ratio; where rounding reaches the next power of two, the pattern carries into
the exponent by itself. What comes out is off by at most half of a unit in the last place, which is
a `2 ^ 53`rd part of the ratio, or half of the least positive number.

## Main definitions

* `Telemetry.Binary64.size` — what a finite number stands for, sign apart
* `Telemetry.Binary64.overflow` — the least rational that rounds to infinity

## Main results

* `Telemetry.Binary64.nearest_spec` — what rounding does, exactly
* `Telemetry.Binary64.nearest_eq_of_near` — a ratio rounds to the significand it is nearest to
* `Telemetry.Binary64.nearest_error` — how far off the outcome is
-/

namespace Telemetry.Binary64

/-! ### Sizes -/

/-- What a magnitude stands for. Infinity continues the numbers below it. -/
def grid (n : ℕ) : ℚ :=
  if n / exponentWeight = 0 then (n : ℚ) * 2 ^ (-1074 : ℤ)
  else ((exponentWeight + n % exponentWeight : ℕ) : ℚ) * 2 ^ ((n / exponentWeight : ℕ) - 1075 : ℤ)

/-- What a finite number stands for, sign apart. -/
def size (x : Binary64) : ℚ := (x.significand : ℚ) * 2 ^ x.exponent

theorem size_eq (x : Binary64) : x.size = grid x.magnitude := by
  simp only [size, grid, significand, exponent]
  split <;> rfl

theorem size_nonneg (x : Binary64) : 0 ≤ x.size := by
  rw [size]
  positivity

/-- A significand on the grid of its exponent. A full one belongs to the next exponent as well. -/
theorem grid_eq {q : ℤ} {m : ℕ} (hq : -1074 ≤ q) (hm : m ≤ 2 * exponentWeight)
    (hfull : q = -1074 ∨ exponentWeight ≤ m) :
    grid ((q + 1074).toNat * exponentWeight + m) = m * 2 ^ q := by
  obtain ⟨k, rfl⟩ : ∃ k : ℕ, q = k - 1074 := ⟨(q + 1074).toNat, by omega⟩
  have hk : ((k : ℤ) - 1074 + 1074).toNat = k := by omega
  have hcases : (k = 0 ∧ m < exponentWeight) ∨ (exponentWeight ≤ m ∧ m < 2 * exponentWeight) ∨
      m = 2 * exponentWeight := by omega
  rw [hk, grid]
  rcases hcases with ⟨rfl, hlt⟩ | ⟨hle, hlt⟩ | rfl
  · have hdiv : (0 * exponentWeight + m) / exponentWeight = 0 := by
      rw [Nat.zero_mul, Nat.zero_add, Nat.div_eq_of_lt hlt]
    rw [if_pos hdiv, Nat.zero_mul, Nat.zero_add]
    norm_num
  · have hdiv : (k * exponentWeight + m) / exponentWeight = k + 1 := by
      simp only [exponentWeight] at hle hlt ⊢
      omega
    have hmod : exponentWeight + (k * exponentWeight + m) % exponentWeight = m := by
      simp only [exponentWeight] at hle hlt ⊢
      omega
    rw [hdiv, hmod, if_neg (Nat.succ_ne_zero k)]
    congr 2
    push_cast
    ring
  · have hdiv : (k * exponentWeight + 2 * exponentWeight) / exponentWeight = k + 2 := by
      simp only [exponentWeight]
      omega
    have hmod : (k * exponentWeight + 2 * exponentWeight) % exponentWeight = 0 := by
      simp only [exponentWeight]
      omega
    rw [hdiv, hmod, if_neg (by omega)]
    have hpow : ((k + 2 : ℕ) - 1075 : ℤ) = (k - 1074 : ℤ) + 1 := by
      push_cast
      ring
    rw [hpow, zpow_add_one₀ (by norm_num)]
    push_cast
    ring

/-- Half of the least positive number. -/
def halfLeast : ℚ := 2 ^ (-1075 : ℤ)

theorem halfLeast_pos : 0 < halfLeast := by
  rw [halfLeast]
  positivity

/-! ### Powers -/

theorem exponentWeight_cast : (exponentWeight : ℚ) = 2 ^ (52 : ℤ) := by norm_num [exponentWeight]

theorem half_zpow (q : ℤ) : (2 : ℚ) ^ q / 2 = 2 ^ (q - 1) := by
  rw [zpow_sub_one₀ (by norm_num), div_eq_mul_inv]

theorem two_mul_half (q : ℤ) : 2 * (2 : ℚ) ^ (q - 1) = 2 ^ q := by
  rw [← half_zpow]
  ring

theorem cast_pow (b k : ℕ) : ((Nat.pow b k : ℕ) : ℚ) = (b : ℚ) ^ k := Nat.cast_pow b k

theorem cast_pow_toNat {e : ℤ} (he : 0 ≤ e) (b : ℕ) :
    ((Nat.pow b e.toNat : ℕ) : ℚ) = (b : ℚ) ^ e := by
  obtain ⟨k, rfl⟩ := Int.eq_ofNat_of_zero_le he
  rw [Int.toNat_natCast, zpow_natCast]
  exact cast_pow b k

/-! ### The exponent of a ratio -/

theorem shiftRatio_spec (num : ℕ) {den : ℕ} (hden : 0 < den) (q : ℤ) :
    0 < (shiftRatio num den q).2 ∧
      ((shiftRatio num den q).1 : ℚ) / (shiftRatio num den q).2 = (num : ℚ) / den / 2 ^ q := by
  have hden' : (den : ℚ) ≠ 0 := Nat.cast_ne_zero.mpr hden.ne'
  have htwo : (2 : ℚ) ^ q ≠ 0 := zpow_ne_zero q (by norm_num)
  rw [shiftRatio]
  split
  · rename_i hq
    refine ⟨Nat.mul_pos hden (Nat.pow_pos (by decide)), ?_⟩
    rw [Nat.cast_mul, cast_pow_toNat hq, Nat.cast_ofNat, div_div]
  · rename_i hq
    refine ⟨hden, ?_⟩
    rw [Nat.cast_mul, cast_pow_toNat (by omega : 0 ≤ -q), Nat.cast_ofNat, zpow_neg]
    field_simp

/-- The orders of magnitude of its terms give that of a ratio, but for one step. -/
theorem ratio_order {base num den : ℚ} (hbase : 0 < base) {k l : ℤ}
    (hnum : base ^ k ≤ num ∧ num < base ^ (k + 1)) (hden : base ^ l ≤ den ∧ den < base ^ (l + 1)) :
    base ^ (k - l - 1) < num / den ∧ num / den < base ^ (k - l + 1) := by
  have hdenPos : 0 < den := lt_of_lt_of_le (by positivity) hden.1
  refine ⟨(lt_div_iff₀ hdenPos).mpr ?_, (div_lt_iff₀ hdenPos).mpr ?_⟩
  · calc base ^ (k - l - 1) * den < base ^ (k - l - 1) * base ^ (l + 1) :=
          mul_lt_mul_of_pos_left hden.2 (by positivity)
      _ = base ^ k := by
        rw [← zpow_add₀ hbase.ne']
        congr 1
        ring
      _ ≤ num := hnum.1
  · calc num < base ^ (k + 1) := hnum.2
      _ = base ^ (k - l + 1) * base ^ l := by
        rw [← zpow_add₀ hbase.ne']
        congr 1
        ring
      _ ≤ base ^ (k - l + 1) * den := mul_le_mul_of_nonneg_left hden.1 (by positivity)

theorem log2_spec {n : ℕ} (hn : 0 < n) :
    (2 : ℚ) ^ (n.log2 : ℤ) ≤ n ∧ (n : ℚ) < 2 ^ ((n.log2 : ℤ) + 1) := by
  rw [← Nat.cast_succ, zpow_natCast, zpow_natCast]
  exact ⟨by exact_mod_cast Nat.log2_self_le hn.ne', by exact_mod_cast Nat.lt_log2_self⟩

theorem ratioExponent_eq (num den : ℕ) :
    ratioExponent num den =
      let q : ℤ := (num.log2 : ℤ) - den.log2 - 52
      max (-1074) (if (shiftRatio num den q).1 < (shiftRatio num den q).2 * exponentWeight
        then q - 1 else q) := rfl

/-- The exponent of a ratio gives it a significand of 53 bits, or is the least one. -/
theorem ratioExponent_spec {num den : ℕ} (hnum : 0 < num) (hden : 0 < den) :
    -1074 ≤ ratioExponent num den ∧
      (num : ℚ) / den / 2 ^ ratioExponent num den < 2 * exponentWeight ∧
      (ratioExponent num den = -1074 ∨
        (exponentWeight : ℚ) ≤ (num : ℚ) / den / 2 ^ ratioExponent num den) := by
  have htwo : (2 : ℚ) ≠ 0 := by norm_num
  have hpos : ∀ e : ℤ, (0 : ℚ) < 2 ^ e := fun e => by positivity
  -- at one of two exponents the ratio has 53 bits
  obtain ⟨q, hq, hmin, hmax⟩ : ∃ q : ℤ, ratioExponent num den = max (-1074) q ∧
      (exponentWeight : ℚ) ≤ (num : ℚ) / den / 2 ^ q ∧
      (num : ℚ) / den / 2 ^ q < 2 * exponentWeight := by
    obtain ⟨hlow, hhigh⟩ := ratio_order (by norm_num) (log2_spec hnum) (log2_spec hden)
    obtain ⟨q₀, hq₀⟩ : ∃ q₀ : ℤ, (num.log2 : ℤ) - den.log2 - 52 = q₀ := ⟨_, rfl⟩
    rw [show (num.log2 : ℤ) - den.log2 - 1 = 51 + q₀ by omega, zpow_add₀ htwo,
      ← lt_div_iff₀ (hpos q₀)] at hlow
    rw [show (num.log2 : ℤ) - den.log2 + 1 = 53 + q₀ by omega, zpow_add₀ htwo,
      ← div_lt_iff₀ (hpos q₀)] at hhigh
    obtain ⟨hd, hshift⟩ := shiftRatio_spec num hden q₀
    have hsplit : (shiftRatio num den q₀).1 < (shiftRatio num den q₀).2 * exponentWeight ↔
        (num : ℚ) / den / 2 ^ q₀ < exponentWeight := by
      rw [← hshift, div_lt_iff₀ (Nat.cast_pos.mpr hd), mul_comm, ← Nat.cast_mul, Nat.cast_lt]
    rw [ratioExponent_eq, hq₀]
    refine ⟨_, rfl, ?_⟩
    rw [exponentWeight_cast] at hsplit ⊢
    generalize (num : ℚ) / den = r at *
    split
    · rename_i hsmall
      have hsmall := hsplit.mp hsmall
      have hdouble : r / 2 ^ (q₀ - 1) = 2 * (r / 2 ^ q₀) := by
        rw [zpow_sub_one₀ htwo]
        field_simp
      rw [hdouble]
      constructor
      · have hpow : (2 : ℚ) ^ (52 : ℤ) = 2 * 2 ^ (51 : ℤ) := by norm_num
        linarith
      · linarith
    · rename_i hlarge
      have hpow : (2 : ℚ) * 2 ^ (52 : ℤ) = 2 ^ (53 : ℤ) := by norm_num
      rw [hpow]
      exact ⟨not_lt.mp fun h => hlarge (hsplit.mpr h), hhigh⟩
  rw [hq]
  refine ⟨le_max_left _ _, ?_, ?_⟩
  · refine lt_of_le_of_lt ?_ hmax
    have hle : (2 : ℚ) ^ q ≤ 2 ^ max (-1074) q :=
      zpow_le_zpow_right₀ (by norm_num) (le_max_right _ _)
    have hnonneg : (0 : ℚ) ≤ num / den := by positivity
    gcongr
  · rcases max_choice (-1074) q with h | h
    · exact .inl h
    · exact .inr (by rwa [h])

theorem ratioExponent_unique {num den : ℕ} (hnum : 0 < num) (hden : 0 < den) {q : ℤ}
    (hq : -1074 ≤ q) (hmax : (num : ℚ) / den / 2 ^ q < 2 * exponentWeight)
    (hmin : q = -1074 ∨ (exponentWeight : ℚ) ≤ (num : ℚ) / den / 2 ^ q) :
    ratioExponent num den = q := by
  obtain ⟨hq', hmax', hmin'⟩ := ratioExponent_spec hnum hden
  generalize ratioExponent num den = q' at *
  generalize (num : ℚ) / den = r at *
  -- the smaller of two exponents would give twice the significand of the larger at least
  have hlt : ∀ a b : ℤ, r / 2 ^ a < 2 * exponentWeight → (exponentWeight : ℚ) ≤ r / 2 ^ b →
      ¬ a < b := by
    intro a b ha hb hab
    have hpos : ∀ e : ℤ, (0 : ℚ) < 2 ^ e := fun e => by positivity
    rw [div_lt_iff₀ (hpos a)] at ha
    rw [le_div_iff₀ (hpos b)] at hb
    have hstep : (2 : ℚ) * 2 ^ a ≤ 2 ^ b := by
      rw [mul_comm, ← zpow_add_one₀ (by norm_num)]
      exact zpow_le_zpow_right₀ (by norm_num) hab
    rw [exponentWeight_cast] at ha hb
    norm_num at ha hb
    linarith
  rcases lt_trichotomy q' q with h | h | h
  · exact absurd h (hlt _ _ hmax' (hmin.resolve_left (by omega)))
  · exact h
  · exact absurd h (hlt _ _ hmax (hmin'.resolve_left (by omega)))

/-! ### Rounding -/

/-- The nearest integer is no further away than half. -/
theorem roundHalfEven_spec (n : ℕ) {d : ℕ} (hd : 0 < d) :
    |(roundHalfEven n d : ℚ) - n / d| ≤ 1 / 2 := by
  have hdPos : (0 : ℚ) < d := Nat.cast_pos.mpr hd
  have hn : (n : ℚ) / d = (n / d : ℕ) + (n % d : ℕ) / (d : ℚ) := by
    rw [eq_comm, add_div' _ _ _ hdPos.ne']
    congr 1
    exact_mod_cast Nat.div_add_mod' n d
  rw [roundHalfEven, hn]
  split
  · rename_i hup
    have hhalf : d ≤ 2 * (n % d) := by
      simp only [Bool.or_eq_true, decide_eq_true_eq, Bool.and_eq_true, beq_iff_eq] at hup
      omega
    have hless := Nat.mod_lt n hd
    have hge : (1 : ℚ) / 2 ≤ (n % d : ℕ) / (d : ℚ) := by
      rw [div_le_div_iff₀ (by norm_num) hdPos]
      exact_mod_cast (by omega : 1 * d ≤ n % d * 2)
    have hle : ((n % d : ℕ) : ℚ) / d ≤ 1 := by
      rw [div_le_one hdPos]
      exact_mod_cast hless.le
    rw [abs_le]
    push_cast at hge hle ⊢
    constructor <;> linarith
  · rename_i hdown
    have hhalf : 2 * (n % d) ≤ d := by
      simp only [Bool.or_eq_true, decide_eq_true_eq, Bool.and_eq_true, beq_iff_eq] at hdown
      omega
    have hle : ((n % d : ℕ) : ℚ) / d ≤ 1 / 2 := by
      rw [div_le_div_iff₀ hdPos (by norm_num)]
      exact_mod_cast (by omega : n % d * 2 ≤ 1 * d)
    have hge : (0 : ℚ) ≤ ((n % d : ℕ) : ℚ) / d := by positivity
    rw [abs_le]
    constructor <;> linarith

/-- The nearest integer is no further away than half, and at half of the way it is even. -/
theorem roundHalfEven_eq {n d m : ℕ} (hd : 0 < d) (hbelow : (m : ℚ) - 1 / 2 ≤ n / d)
    (habove : (n : ℚ) / d ≤ m + 1 / 2)
    (heven : m % 2 = 0 ∨ (m : ℚ) - 1 / 2 < n / d ∧ (n : ℚ) / d < m + 1 / 2) :
    roundHalfEven n d = m := by
  have hpos : (0 : ℚ) < d := Nat.cast_pos.mpr hd
  rw [le_div_iff₀ hpos] at hbelow
  rw [div_le_iff₀ hpos] at habove
  rw [lt_div_iff₀ hpos, div_lt_iff₀ hpos] at heven
  have hbelow : 2 * (m * d) ≤ 2 * n + d := by
    have : (2 : ℚ) * (m * d) ≤ 2 * n + d := by linarith
    exact_mod_cast this
  have habove : 2 * n ≤ 2 * (m * d) + d := by
    have : (2 : ℚ) * n ≤ 2 * (m * d) + d := by linarith
    exact_mod_cast this
  have heven : m % 2 = 0 ∨ 2 * (m * d) < 2 * n + d ∧ 2 * n < 2 * (m * d) + d := by
    refine heven.imp id fun hinside => ?_
    obtain ⟨hlow, hhigh⟩ := hinside
    constructor
    · have : (2 : ℚ) * (m * d) < 2 * n + d := by linarith
      exact_mod_cast this
    · have : (2 : ℚ) * n < 2 * (m * d) + d := by linarith
      exact_mod_cast this
  have hn := Nat.div_add_mod' n d
  have hr := Nat.mod_lt n hd
  rw [roundHalfEven]
  generalize n / d = a at *
  generalize n % d = r at *
  have hm : m = a ∨ m = a + 1 := by
    by_contra hm
    rcases (by omega : m + 1 ≤ a ∨ a + 2 ≤ m) with hm | hm
    · have hmul := Nat.mul_le_mul_right d hm
      rw [Nat.succ_mul] at hmul
      omega
    · have hmul := Nat.mul_le_mul_right d hm
      rw [Nat.add_mul] at hmul
      omega
  simp only [Bool.or_eq_true, decide_eq_true_eq, Bool.and_eq_true, beq_iff_eq]
  rcases hm with rfl | rfl
  · rw [if_neg]
    omega
  · have hmul : (a + 1) * d = a * d + d := Nat.succ_mul a d
    rw [if_pos]
    omega

theorem nearest_eq {num den n d : ℕ} {q : ℤ} (hnum : num ≠ 0) (hq : ratioExponent num den = q)
    (hshift : shiftRatio num den q = (n, d)) :
    nearest num den = min infinite ((q + 1074).toNat * exponentWeight + roundHalfEven n d) := by
  unfold nearest
  rw [if_neg hnum, hq]
  dsimp -iota only
  rw [hshift]

/-- A ratio rounds to a significand on the grid of its exponent. -/
theorem nearest_eq_of_near {num den : ℕ} (hnum : 0 < num) (hden : 0 < den) {q : ℤ} {m : ℕ}
    (hq : ratioExponent num den = q)
    (hbelow : ((m : ℚ) - 1 / 2) * 2 ^ q ≤ num / den)
    (habove : (num : ℚ) / den ≤ (m + 1 / 2) * 2 ^ q)
    (heven : m % 2 = 0 ∨ ((m : ℚ) - 1 / 2) * 2 ^ q < num / den ∧
      (num : ℚ) / den < (m + 1 / 2) * 2 ^ q) :
    nearest num den = min infinite ((q + 1074).toNat * exponentWeight + m) := by
  have hunit : (0 : ℚ) < 2 ^ q := by positivity
  obtain ⟨hd, hshift⟩ := shiftRatio_spec num hden q
  obtain ⟨⟨n, d⟩, hpair⟩ : ∃ p, shiftRatio num den q = p := ⟨_, rfl⟩
  rw [hpair] at hd hshift
  rw [nearest_eq hnum.ne' hq hpair]
  congr 2
  rw [← le_div_iff₀ hunit] at hbelow
  rw [← div_le_iff₀ hunit] at habove
  rw [← lt_div_iff₀ hunit, ← div_lt_iff₀ hunit] at heven
  rw [← hshift] at hbelow habove heven
  exact roundHalfEven_eq hd hbelow habove heven

/-- **What rounding does**: a ratio goes to the nearest point on the grid of an exponent, unless
that is beyond the range. -/
theorem nearest_spec {num den : ℕ} (hnum : 0 < num) (hden : 0 < den) :
    ∃ (q : ℤ) (m : ℕ), nearest num den = min infinite ((q + 1074).toNat * exponentWeight + m) ∧
      -1074 ≤ q ∧ m ≤ 2 * exponentWeight ∧ (q = -1074 ∨ exponentWeight ≤ m) ∧
      (q = -1074 ∨ exponentWeight * (2 : ℚ) ^ q ≤ num / den) ∧
      |m * (2 : ℚ) ^ q - num / den| ≤ 2 ^ q / 2 := by
  obtain ⟨hq, hmax, hmin⟩ := ratioExponent_spec hnum hden
  obtain ⟨q, hexp⟩ : ∃ q, ratioExponent num den = q := ⟨_, rfl⟩
  obtain ⟨hd, hshift⟩ := shiftRatio_spec num hden q
  obtain ⟨⟨n, d⟩, hpair⟩ : ∃ p, shiftRatio num den q = p := ⟨_, rfl⟩
  rw [hpair] at hd hshift
  have hround := roundHalfEven_spec n hd
  rw [hexp] at hq hmax hmin
  rw [hshift] at hround
  have hpos : (0 : ℚ) < 2 ^ q := by positivity
  refine ⟨q, roundHalfEven n d, nearest_eq hnum.ne' hexp hpair, hq, ?_, ?_, ?_, ?_⟩
  all_goals
    generalize roundHalfEven n d = m at hround ⊢
    obtain ⟨hbelow, habove⟩ := abs_le.mp hround
  · by_contra hlarge
    have hcast : 2 * (exponentWeight : ℚ) + 1 ≤ m := by
      exact_mod_cast Nat.lt_of_not_le hlarge
    linarith
  · refine hmin.imp id fun hmin => ?_
    by_contra hsmall
    have hcast : (m : ℚ) + 1 ≤ exponentWeight := by
      exact_mod_cast Nat.lt_of_not_le hsmall
    linarith
  · exact hmin.imp id fun hmin => (le_div_iff₀ hpos).mp hmin
  · have hscale : (m : ℚ) * 2 ^ q - num / den = (m - num / den / 2 ^ q) * 2 ^ q := by
      field_simp
    rw [hscale, abs_mul, abs_of_pos hpos]
    linarith [mul_le_mul_of_nonneg_right hround hpos.le]

/-- The least rational that rounds to infinity. -/
def overflow : ℚ := (2 ^ 54 - 1) * 2 ^ (970 : ℤ)

/-- The pattern of a point on a grid is below infinity if the point is in range. -/
theorem pattern_lt_infinite {q : ℤ} {m : ℕ} {r : ℚ} (hm : m ≤ 2 * exponentWeight)
    (hmin : q = -1074 ∨ exponentWeight * (2 : ℚ) ^ q ≤ r)
    (herror : |m * (2 : ℚ) ^ q - r| ≤ 2 ^ q / 2) (h : r < overflow) :
    (q + 1074).toNat * exponentWeight + m < infinite := by
  have htwo : (2 : ℚ) ≠ 0 := by norm_num
  have hunit : (0 : ℚ) < 2 ^ (970 : ℤ) := by positivity
  have hle : q ≤ 971 := by
    rcases hmin with rfl | hmin
    · decide
    · by_contra hlarge
      have hpow : (2 : ℚ) ^ (2 : ℤ) * 2 ^ (970 : ℤ) ≤ 2 ^ q := by
        rw [← zpow_add₀ htwo]
        exact zpow_le_zpow_right₀ (by norm_num) (by omega)
      rw [exponentWeight_cast] at hmin
      rw [overflow] at h
      generalize (2 : ℚ) ^ (970 : ℤ) = u at *
      linarith
  -- at the largest exponent a full significand is too far away
  have hlast : q = 971 → m ≠ 2 * exponentWeight := by
    rintro rfl rfl
    have hdouble : 2 * (2 : ℚ) ^ (970 : ℤ) = 2 ^ (971 : ℤ) := two_mul_half 971
    rw [Nat.cast_mul, exponentWeight_cast, ← hdouble] at herror
    have habove := (abs_le.mp herror).2
    rw [overflow] at h
    generalize (2 : ℚ) ^ (970 : ℤ) = u at *
    push_cast at habove
    linarith
  simp only [infinite, exponentWeight] at hm hlast ⊢
  omega

/-- Half of a unit in the last place, as a part of the number. -/
theorem half_unit_le {q : ℤ} {r : ℚ} (hr : 0 ≤ r)
    (hmin : q = -1074 ∨ exponentWeight * (2 : ℚ) ^ q ≤ r) :
    (2 : ℚ) ^ q / 2 ≤ r / 2 ^ 53 + halfLeast := by
  have hnonneg : 0 ≤ r / 2 ^ 53 := by positivity
  rcases hmin with rfl | hmin
  · rw [half_zpow]
    exact le_add_of_nonneg_left hnonneg
  · refine le_add_of_le_of_nonneg ?_ halfLeast_pos.le
    rw [le_div_iff₀ (by norm_num)]
    calc (2 : ℚ) ^ q / 2 * 2 ^ 53 = 2 ^ (52 : ℤ) * 2 ^ q := by
          norm_num
          ring
      _ = exponentWeight * 2 ^ q := by rw [exponentWeight_cast]
      _ ≤ r := hmin

/-- **A ratio within the range is rounded to a number**, and the error is half of a unit in the
last place. -/
theorem nearest_error {num den : ℕ} (hden : 0 < den) (h : (num : ℚ) / den < overflow) :
    nearest num den < infinite ∧
      |grid (nearest num den) - num / den| ≤ (num : ℚ) / den / 2 ^ 53 + halfLeast := by
  rcases Nat.eq_zero_or_pos num with rfl | hnum
  · have hzero : nearest 0 den = 0 := if_pos rfl
    rw [hzero]
    refine ⟨by decide, ?_⟩
    rw [grid, if_pos (by decide)]
    simp [halfLeast_pos.le]
  · obtain ⟨q, m, hnearest, hq, hm, hfull, hmin, herror⟩ := nearest_spec hnum hden
    have hfinite := pattern_lt_infinite hm hmin herror h
    rw [hnearest, min_eq_right hfinite.le, grid_eq hq hm hfull]
    refine ⟨hfinite, herror.trans ?_⟩
    exact half_unit_le (by positivity) hmin

end Telemetry.Binary64
