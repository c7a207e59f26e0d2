import Telemetry.Binary64.Shortest
import Telemetry.Proofs.Binary64.Rounding
import Mathlib.Algebra.Order.Floor.Semifield
import Mathlib.Data.Nat.Digits.Defs
import Mathlib.Data.Rat.Floor

/-!
# The shortest decimal rounds to the number

The search walks over finer and finer grids of decimals and takes the first one with a point in
the interval of the number. The grid of seventeen digits is finer than the numbers of the format,
so that it always has one, and the search stops there at the latest. Trailing zeros move into the
exponent without a change of value. The interval is that of the reals that round to the number:
below a power of two, where it is shorter, they round to the next exponent first.

## Main definitions

* `Telemetry.Binary64.Decimal.value` — what a decimal stands for
* `Telemetry.Binary64.Interval.Covers` — a rational is in an interval

## Main results

* `Telemetry.Binary64.shortest_spec` — the shortest decimal of a number is in its interval, and
  has seventeen digits at most
* `Telemetry.Binary64.nearest_of_covers` — what is in the interval rounds to the number
-/

namespace Telemetry.Binary64

/-- What a decimal stands for. -/
def Decimal.value (d : Decimal) : ℚ := d.digits * 10 ^ d.exponent

namespace Interval

variable {i : Interval}

/-! ### Rationals in an interval -/

/-- A rational is in the interval; the ends belong to it if it is closed. -/
def Covers (i : Interval) (r : ℚ) : Prop :=
  if i.closed then (i.low : ℚ) / i.den ≤ r ∧ r ≤ (i.high : ℚ) / i.den
  else (i.low : ℚ) / i.den < r ∧ r < (i.high : ℚ) / i.den

theorem Covers.bounds {r : ℚ} (h : i.Covers r) :
    (i.low : ℚ) / i.den ≤ r ∧ r ≤ (i.high : ℚ) / i.den := by
  rw [Covers] at h
  split at h
  · exact h
  · exact ⟨h.1.le, h.2.le⟩

theorem covers_of_lt {r : ℚ} (hlow : (i.low : ℚ) / i.den < r) (hhigh : r < (i.high : ℚ) / i.den) :
    i.Covers r := by
  rw [Covers]
  split
  · exact ⟨hlow.le, hhigh.le⟩
  · exact ⟨hlow, hhigh⟩

theorem holds_iff (hden : 0 < i.den) (n : ℕ) : i.holds n = true ↔ i.Covers n := by
  have hpos : (0 : ℚ) < i.den := Nat.cast_pos.mpr hden
  rw [holds, Covers]
  cases i.closed
  · simp only [Bool.false_eq_true, if_false, Bool.and_eq_true, decide_eq_true_eq]
    rw [div_lt_iff₀ hpos, lt_div_iff₀ hpos, ← Nat.cast_mul, Nat.cast_lt, Nat.cast_lt]
  · simp only [if_true, Bool.and_eq_true, decide_eq_true_eq]
    rw [div_le_iff₀ hpos, le_div_iff₀ hpos, ← Nat.cast_mul, Nat.cast_le, Nat.cast_le]

/-! ### Grids -/

theorem scale_den_pos (hden : 0 < i.den) (e : ℤ) : 0 < (i.scale e).den := by
  rw [scale]
  split
  · exact hden
  · exact Nat.mul_pos hden (Nat.pow_pos (by decide))

/-- The three numbers of an interval are multiplied by the power of ten. -/
theorem scale_spec (i : Interval) (e : ℤ) :
    ((i.scale e).low : ℚ) / (i.scale e).den = (i.low : ℚ) / i.den * 10 ^ e ∧
      ((i.scale e).mid : ℚ) / (i.scale e).den = (i.mid : ℚ) / i.den * 10 ^ e ∧
      ((i.scale e).high : ℚ) / (i.scale e).den = (i.high : ℚ) / i.den * 10 ^ e := by
  rw [scale]
  split
  · rename_i he
    have hpow := cast_pow_toNat he 10
    simp only [Nat.cast_mul, hpow, Nat.cast_ofNat]
    refine ⟨?_, ?_, ?_⟩ <;> ring
  · rename_i he
    have hpow := cast_pow_toNat (by omega : 0 ≤ -e) 10
    simp only [Nat.cast_mul, hpow, Nat.cast_ofNat, zpow_neg]
    refine ⟨?_, ?_, ?_⟩ <;> field_simp

theorem covers_scale (i : Interval) (e : ℤ) (r : ℚ) :
    (i.scale (-e)).Covers r ↔ i.Covers (r * 10 ^ e) := by
  have hpos : (0 : ℚ) < 10 ^ e := by positivity
  obtain ⟨hlow, -, hhigh⟩ := i.scale_spec (-e)
  have hclosed : (i.scale (-e)).closed = i.closed := by
    rw [scale]
    split <;> rfl
  rw [Covers, Covers, hclosed, hlow, hhigh, zpow_neg, ← div_eq_mul_inv, ← div_eq_mul_inv,
    div_le_iff₀ hpos, le_div_iff₀ hpos, div_lt_iff₀ hpos, lt_div_iff₀ hpos]

/-- What is taken from a grid is one of the two neighbours of the middle. -/
theorem candidate?_eq_some {tie : Tie} {n : ℕ} (h : i.candidate? tie = some n) :
    i.holds n = true ∧ n ≤ i.mid / i.den + 1 := by
  simp only [candidate?] at h
  split at h
  · rename_i ha hb
    rw [← Option.some.inj h]
    split_ifs
    · exact ⟨hb, le_rfl⟩
    · exact ⟨ha, Nat.le_succ _⟩
  · rename_i ha hb
    cases h
    exact ⟨ha, Nat.le_succ _⟩
  · rename_i ha hb
    cases h
    exact ⟨hb, le_rfl⟩
  · cases h

theorem candidate?_eq_none {tie : Tie} (h : i.candidate? tie = none) :
    i.holds (i.mid / i.den) = false ∧ i.holds (i.mid / i.den + 1) = false := by
  simp only [candidate?] at h
  split at h
  · cases h
  · cases h
  · cases h
  · exact ⟨‹_›, ‹_›⟩

/-- One of the two neighbours of the middle is in an interval that reaches far enough: further
than to the next point above, or further than half of the way to both sides. -/
theorem candidate?_ne_none (hden : 0 < i.den) {w : ℚ}
    (hlow : (i.low : ℚ) / i.den < i.mid / i.den)
    (hhigh : (i.high : ℚ) / i.den = i.mid / i.den + w)
    (hw : 1 < w ∨ 1 / 2 < w ∧ (i.low : ℚ) / i.den = i.mid / i.den - w) (tie : Tie) :
    i.candidate? tie ≠ none := by
  intro hnone
  obtain ⟨ha, hb⟩ := candidate?_eq_none hnone
  have hfloor : ⌊(i.mid : ℚ) / i.den⌋₊ = i.mid / i.den := Nat.floor_div_eq_div i.mid i.den
  have hle := Nat.floor_le (by positivity : (0 : ℚ) ≤ i.mid / i.den)
  have hlt := Nat.lt_floor_add_one ((i.mid : ℚ) / i.den)
  rw [hfloor] at hle hlt
  have ha : ¬ i.Covers (i.mid / i.den : ℕ) := fun h => by
    rw [← holds_iff hden, ha] at h
    cases h
  have hb : ¬ i.Covers ((i.mid / i.den : ℕ) + 1 : ℚ) := fun h => by
    rw [← Nat.cast_succ, ← holds_iff hden, hb] at h
    cases h
  generalize ((i.mid / i.den : ℕ) : ℚ) = a at *
  generalize (i.mid : ℚ) / i.den = t at *
  rcases hw with hw | ⟨hw, hlow'⟩
  · exact hb (covers_of_lt (by linarith) (by linarith))
  · by_cases hnear : t - a < w
    · exact ha (covers_of_lt (by linarith) (by linarith))
    · exact hb (covers_of_lt (by linarith) (by linarith))

end Interval

/-! ### Orders of magnitude -/

theorem toDigits_length_pos (n : ℕ) : 0 < (Nat.toDigits 10 n).length := by
  rw [List.length_pos_iff]
  exact Nat.toDigits_ne_nil

/-- The count of the digits of a number gives its order of magnitude. -/
theorem length_toDigits_spec {n : ℕ} (hn : 0 < n) :
    (10 : ℚ) ^ ((Nat.toDigits 10 n).length - 1 : ℤ) ≤ n ∧
      (n : ℚ) < 10 ^ ((Nat.toDigits 10 n).length - 1 + 1 : ℤ) := by
  obtain ⟨k, hk⟩ : ∃ k, (Nat.toDigits 10 n).length = k + 1 :=
    ⟨_, (Nat.succ_pred_eq_of_pos (toDigits_length_pos n)).symm⟩
  have hiff : ∀ j, 0 < j → ((Nat.toDigits 10 n).length ≤ j ↔ n < 10 ^ j) := fun j hj =>
    Nat.length_toDigits_le_iff (by decide) hj
  rw [hk] at hiff ⊢
  rw [sub_add_cancel, Nat.cast_succ, add_sub_cancel_right, ← Nat.cast_succ, zpow_natCast,
    zpow_natCast]
  constructor
  · rcases Nat.eq_zero_or_pos k with rfl | hkpos
    · rw [pow_zero]
      exact_mod_cast hn
    · have hle : 10 ^ k ≤ n := by
        by_contra h
        exact absurd ((hiff k hkpos).mpr (Nat.lt_of_not_le h)) (by omega)
      exact_mod_cast hle
  · exact_mod_cast (hiff (k + 1) k.succ_pos).mp le_rfl

/-- The order of magnitude of a ratio. -/
theorem order_spec {num den : ℕ} (hnum : 0 < num) (hden : 0 < den) :
    (10 : ℚ) ^ order num den ≤ num / den ∧ (num : ℚ) / den < 10 ^ (order num den + 1) := by
  have hdenPos : (0 : ℚ) < den := Nat.cast_pos.mpr hden
  obtain ⟨hlow, hhigh⟩ := ratio_order (by norm_num) (length_toDigits_spec hnum)
    (length_toDigits_spec hden)
  rw [sub_sub_sub_cancel_right] at hlow hhigh
  rw [order]
  generalize ((Nat.toDigits 10 num).length : ℤ) = a at *
  generalize ((Nat.toDigits 10 den).length : ℤ) = b at *
  generalize a - b = k at *
  have hreached : (if 0 ≤ k then den * Nat.pow 10 k.toNat ≤ num
      else den ≤ num * Nat.pow 10 (-k).toNat) ↔ (10 : ℚ) ^ k ≤ num / den := by
    split
    · rename_i hk
      rw [le_div_iff₀ hdenPos, ← Nat.cast_le (α := ℚ), Nat.cast_mul, cast_pow_toNat hk,
        Nat.cast_ofNat, mul_comm]
    · rename_i hk
      have hpos : (0 : ℚ) < 10 ^ k := by positivity
      rw [← Nat.cast_le (α := ℚ), Nat.cast_mul, cast_pow_toNat (by omega : 0 ≤ -k),
        Nat.cast_ofNat, zpow_neg, ← div_eq_mul_inv, le_div_iff₀ hpos, le_div_iff₀ hdenPos,
        mul_comm]
  by_cases h : (10 : ℚ) ^ k ≤ num / den
  · rw [if_pos (hreached.mpr h)]
    exact ⟨h, hhigh⟩
  · rw [if_neg (mt hreached.mp h), sub_add_cancel]
    exact ⟨hlow.le, not_le.mp h⟩

/-! ### The interval of a number -/

theorem significand_lt (x : Binary64) : x.significand < 2 * exponentWeight := by
  rw [significand]
  by_cases h : x.magnitude / exponentWeight = 0
  · rw [if_pos h]
    simp only [exponentWeight] at h ⊢
    omega
  · rw [if_neg h]
    simp only [exponentWeight]
    omega

theorem exponent_ge (x : Binary64) : -1074 ≤ x.exponent := by
  rw [exponent]
  generalize x.magnitude / exponentWeight = e
  dsimp only [Int.ofNat_eq_natCast]
  split <;> omega

/-- Only at the least exponent a significand has less than 53 bits. -/
theorem significand_full (x : Binary64) :
    x.exponent = -1074 ∨ exponentWeight ≤ x.significand := by
  simp only [exponent, significand]
  split
  · exact .inl rfl
  · exact .inr (Nat.le_add_right _ _)

theorem magnitude_of_significand {x : Binary64} (h : x.significand = 0) : x.magnitude = 0 := by
  rw [significand] at h
  split at h
  · exact h
  · simp only [exponentWeight] at h
    omega

theorem interval_den_pos (x : Binary64) : 0 < x.interval.den := by
  simp only [interval]
  split
  · exact Nat.one_pos
  · exact Nat.pow_pos (by decide)

/-- How far the interval of a number reaches below it. -/
def reachBelow (x : Binary64) : ℚ :=
  if x.significand = exponentWeight ∧ x.exponent ≠ -1074 then 2 ^ (x.exponent - 2)
  else 2 ^ (x.exponent - 1)

/-- Half of the distance to the neighbour above, as a part of the distance between quarters. -/
theorem two_mul_quarter (q : ℤ) : 2 * (2 : ℚ) ^ (q - 2) = 2 ^ (q - 1) := by
  rw [mul_comm, ← zpow_add_one₀ (by norm_num)]
  congr 1
  ring

/-- The interval reaches half of the way to both neighbours. -/
theorem interval_spec {x : Binary64} (hx : 0 < x.significand) :
    (x.interval.low : ℚ) / x.interval.den = x.size - x.reachBelow ∧
      (x.interval.mid : ℚ) / x.interval.den = x.size ∧
      (x.interval.high : ℚ) / x.interval.den = x.size + 2 ^ (x.exponent - 1) := by
  have hscale : (((if 0 ≤ x.exponent - 2 then Nat.pow 2 (x.exponent - 2).toNat else 1 : ℕ) : ℚ) /
      (if 0 ≤ x.exponent - 2 then 1 else Nat.pow 2 (-(x.exponent - 2)).toNat : ℕ)
        = 2 ^ (x.exponent - 2)) := by
    split
    · rw [cast_pow_toNat ‹_›, Nat.cast_one, div_one, Nat.cast_ofNat]
    · rw [cast_pow_toNat (by omega), Nat.cast_one, zpow_neg, one_div, inv_inv, Nat.cast_ofNat]
  have hsize : x.size = 4 * x.significand * 2 ^ (x.exponent - 2) := by
    rw [size, zpow_sub₀ (by norm_num)]
    norm_num
    ring
  have hbelow : x.reachBelow = (if x.significand = exponentWeight ∧ x.exponent - 2 + 2 ≠ -1074
      then 1 else 2 : ℕ) * 2 ^ (x.exponent - 2) := by
    rw [reachBelow, sub_add_cancel]
    split
    · rw [Nat.cast_one, one_mul]
    · rw [Nat.cast_ofNat, two_mul_quarter]
  have hle : (if x.significand = exponentWeight ∧ x.exponent - 2 + 2 ≠ -1074 then 1 else 2)
      ≤ 4 * x.significand := by
    split <;> omega
  rw [hbelow, hsize, ← two_mul_quarter, ← hscale, interval]
  dsimp only
  refine ⟨?_, ?_, ?_⟩
  · rw [Nat.cast_mul, Nat.cast_sub hle]
    push_cast
    ring
  · push_cast
    ring
  · push_cast
    ring

theorem size_pos {x : Binary64} (hx : 0 < x.significand) : 0 < x.size := by
  rw [size]
  have hcast : (0 : ℚ) < x.significand := Nat.cast_pos.mpr hx
  positivity

theorem reachBelow_pos (x : Binary64) : 0 < x.reachBelow := by
  rw [reachBelow]
  split <;> positivity

/-- The grid of seventeen digits is finer than the numbers of the format. -/
theorem candidate?_interval_ne_none {x : Binary64} (hx : 0 < x.significand) {e : ℤ}
    (he : (10 : ℚ) ^ (e + 16) ≤ x.size) (tie : Tie) :
    (x.interval.scale (-e)).candidate? tie ≠ none := by
  have hten : (0 : ℚ) < 10 ^ e := by positivity
  have hhalf : (0 : ℚ) < 2 ^ (x.exponent - 1) := by positivity
  have hsize : x.size = 2 * x.significand * 2 ^ (x.exponent - 1) := by
    rw [size, ← two_mul_quarter, zpow_sub₀ (by norm_num)]
    norm_num
    ring
  have hdigits : (10 : ℚ) ^ 16 * 10 ^ e ≤ x.size := by
    rwa [zpow_add₀ (by norm_num), mul_comm] at he
  obtain ⟨hlow, hmid, hhigh⟩ := interval_spec hx
  obtain ⟨hlowScale, hmidScale, hhighScale⟩ := x.interval.scale_spec (-e)
  have hreach : x.reachBelow * 10 ^ (-e) > 0 := mul_pos x.reachBelow_pos (by positivity)
  refine Interval.candidate?_ne_none (Interval.scale_den_pos x.interval_den_pos _)
    (w := 2 ^ (x.exponent - 1) * 10 ^ (-e)) ?_ ?_ ?_ tie
  · rw [hlowScale, hmidScale, hlow, hmid, sub_mul]
    linarith
  · rw [hhighScale, hmidScale, hhigh, hmid, add_mul]
  · rw [hlowScale, hmidScale, hlow, hmid, sub_mul, zpow_neg, ← div_eq_mul_inv, lt_div_iff₀ hten,
      lt_div_iff₀ hten]
    by_cases hpower : x.significand = exponentWeight ∧ x.exponent ≠ -1074
    · left
      rw [hsize, hpower.1, exponentWeight_cast] at hdigits
      norm_num at hdigits ⊢
      linarith
    · right
      rw [reachBelow, if_neg hpower]
      refine ⟨?_, rfl⟩
      have hlt : (x.significand : ℚ) * 2 ^ (x.exponent - 1)
          < 2 * exponentWeight * 2 ^ (x.exponent - 1) := by
        have hcast : (x.significand : ℚ) < 2 * exponentWeight := by exact_mod_cast x.significand_lt
        gcongr
      rw [exponentWeight_cast] at hlt
      norm_num at hdigits hlt ⊢
      linarith

/-! ### The search -/

theorem candidate?_covers {i : Interval} (hden : 0 < i.den) {tie : Tie} {e : ℤ} {d : ℕ}
    (h : (i.scale (-e)).candidate? tie = some d)
    (hhigh : (i.mid : ℚ) / i.den < 10 ^ (e + 17)) :
    i.Covers (Decimal.value ⟨d, e⟩) ∧ d ≤ 10 ^ 17 := by
  have hdenScale := Interval.scale_den_pos hden (-e)
  obtain ⟨hholds, hle⟩ := Interval.candidate?_eq_some h
  rw [Interval.holds_iff hdenScale, Interval.covers_scale] at hholds
  refine ⟨hholds, hle.trans ?_⟩
  have hlt : ((i.scale (-e)).mid : ℚ) / (i.scale (-e)).den < 10 ^ 17 := by
    rw [(i.scale_spec (-e)).2.1, zpow_neg, ← div_eq_mul_inv, div_lt_iff₀ (by positivity), mul_comm,
      ← zpow_natCast, ← zpow_add₀ (by norm_num)]
    exact hhigh
  rw [div_lt_iff₀ (Nat.cast_pos.mpr hdenScale)] at hlt
  exact Nat.succ_le_of_lt ((Nat.div_lt_iff_lt_mul hdenScale).mpr (by exact_mod_cast hlt))

/-- The search ends on a grid of at most seventeen digits, with a point of the interval. -/
theorem searchGrid_spec {i : Interval} (hden : 0 < i.den) (tie : Tie)
    (hfine : ∀ e : ℤ, (10 : ℚ) ^ (e + 16) ≤ i.mid / i.den →
      (i.scale (-e)).candidate? tie ≠ none) (n : ℕ) (e : ℤ)
    (hlow : (10 : ℚ) ^ (e - n + 16) ≤ i.mid / i.den)
    (hhigh : (i.mid : ℚ) / i.den < 10 ^ (e - n + 17)) :
    i.Covers (searchGrid i tie (n + 1) e).value ∧
      (searchGrid i tie (n + 1) e).digits ≤ 10 ^ 17 := by
  have htop : (i.mid : ℚ) / i.den < 10 ^ (e + 17) :=
    hhigh.trans_le (zpow_le_zpow_right₀ (by norm_num) (by omega))
  rw [searchGrid]
  cases hcandidate : (i.scale (-e)).candidate? tie with
  | some d => exact candidate?_covers hden hcandidate htop
  | none =>
    -- the grid of the last step is fine enough to have a point
    cases n with
    | zero => exact absurd hcandidate (hfine e (by simpa using hlow))
    | succ n =>
      have hexp : e - (n + 1 : ℕ) = e - 1 - n := by omega
      rw [hexp] at hlow hhigh
      exact searchGrid_spec hden tie hfine n (e - 1) hlow hhigh

/-! ### Trailing zeros -/

theorem stripZeros_spec (n : ℕ) (d : Decimal) :
    (stripZeros n d).value = d.value ∧ (stripZeros n d).digits ≤ d.digits := by
  induction n generalizing d with
  | zero => exact ⟨rfl, le_rfl⟩
  | succ n ih =>
    rw [stripZeros]
    split
    · rename_i h
      simp only [Bool.and_eq_true, decide_eq_true_eq] at h
      obtain ⟨hvalue, hdigits⟩ := ih ⟨d.digits / 10, d.exponent + 1⟩
      refine ⟨hvalue.trans ?_, hdigits.trans (Nat.div_le_self _ _)⟩
      obtain ⟨k, hk⟩ := Nat.dvd_of_mod_eq_zero h.1
      rw [Decimal.value, Decimal.value, hk, Nat.mul_div_cancel_left k (by decide),
        zpow_add_one₀ (by norm_num)]
      push_cast
      ring
    · exact ⟨rfl, le_rfl⟩

/-- **The shortest decimal of a number is in its interval**, and has seventeen digits at most. -/
theorem shortest_spec {x : Binary64} (hx : 0 < x.significand) (tie : Tie) :
    x.interval.Covers (x.shortest tie).value ∧ (x.shortest tie).digits ≤ 10 ^ 17 := by
  have hden := x.interval_den_pos
  have hmid := (interval_spec hx).2.1
  have hnum : 0 < x.interval.mid := by
    have hsize := size_pos hx
    rw [← hmid, div_pos_iff_of_pos_right (Nat.cast_pos.mpr hden), Nat.cast_pos] at hsize
    exact hsize
  obtain ⟨hlow, hhigh⟩ := order_spec hnum hden
  rw [shortest, if_neg hx.ne']
  obtain ⟨hvalue, hdigits⟩ := stripZeros_spec 17
    (searchGrid x.interval tie 17 (order x.interval.mid x.interval.den))
  obtain ⟨hcovers, hle⟩ := searchGrid_spec hden tie
    (fun e he => candidate?_interval_ne_none hx (hmid ▸ he) tie) 16 _
    (by simpa using hlow) (by convert hhigh using 2; ring)
  exact ⟨hvalue ▸ hcovers, hdigits.trans hle⟩

/-! ### What the interval is for -/

theorem reachBelow_le (x : Binary64) : x.reachBelow ≤ 2 ^ (x.exponent - 1) := by
  rw [reachBelow]
  split
  · exact zpow_le_zpow_right₀ (by norm_num) (by omega)
  · exact le_rfl

/-- The pattern of a number comes from any significand and exponent that make it up. -/
theorem pattern_eq_magnitude {x : Binary64} (hfinite : x.isFinite = true) {q : ℤ} {m : ℕ}
    (hq : -1074 ≤ q) (h : (q + 1074) * exponentWeight + m = (x.magnitude : ℤ)) :
    min infinite ((q + 1074).toNat * exponentWeight + m) = x.magnitude := by
  have hlt : x.magnitude < infinite := of_decide_eq_true hfinite
  obtain ⟨k, rfl⟩ : ∃ k : ℕ, q = k - 1074 := ⟨(q + 1074).toNat, by omega⟩
  rw [sub_add_cancel] at h ⊢
  have hpattern : k * exponentWeight + m = x.magnitude := by exact_mod_cast h
  rw [Int.toNat_natCast, hpattern, min_eq_right hlt.le]

/-- Just below a power of two a ratio rounds up to it, from the finer grid there. -/
theorem nearest_of_carry {x : Binary64} (hfinite : x.isFinite = true) (hnormal : x.exponent ≠ -1074)
    {num den : ℕ} (hnum : 0 < num) (hden : 0 < den)
    (hbelow : x.size - x.reachBelow ≤ num / den)
    (hless : (num : ℚ) / den < exponentWeight * 2 ^ x.exponent) :
    nearest num den = x.magnitude := by
  have hge := x.exponent_ge
  have hreach := x.reachBelow_le
  have hpos : (0 : ℚ) < 2 ^ (x.exponent - 1) := by positivity
  have hunit := (two_mul_half x.exponent).symm
  have hfull := x.significand_full.resolve_left hnormal
  have hpower : x.significand = exponentWeight := by
    by_contra hne
    have hcast : (exponentWeight : ℚ) + 1 ≤ x.significand := by
      exact_mod_cast Nat.lt_of_le_of_ne hfull (Ne.symm hne)
    have hmul := mul_le_mul_of_nonneg_right hcast hpos.le
    rw [size, hunit] at hbelow
    rw [hunit] at hless
    linarith
  rw [reachBelow, if_pos ⟨hpower, hnormal⟩, size, hpower, hunit] at hbelow
  rw [hunit] at hless
  rw [← two_mul_quarter] at hpos hbelow hless
  have hexponent : ratioExponent num den = x.exponent - 1 := by
    refine ratioExponent_unique hnum hden (by omega) ?_ (.inr ?_)
    · rw [div_lt_iff₀ (by positivity), ← two_mul_quarter]
      linarith
    · rw [le_div_iff₀ (by positivity), ← two_mul_quarter]
      rw [exponentWeight_cast] at hbelow ⊢
      norm_num at hbelow ⊢
      linarith
  have hmagnitude := x.magnitude_eq
  rw [nearest_eq_of_near (m := 2 * exponentWeight) hnum hden hexponent ?_ ?_ (.inl (by decide))]
  · refine pattern_eq_magnitude hfinite (by omega) ?_
    rw [hmagnitude, hpower]
    push_cast
    ring
  · rw [← two_mul_quarter]
    push_cast
    linarith
  · rw [← two_mul_quarter]
    push_cast
    linarith

/-- **The reals of the interval are those that round to the number.** -/
theorem nearest_of_covers {x : Binary64} (hx : 0 < x.significand) (hfinite : x.isFinite = true)
    {num den : ℕ} (hden : 0 < den) (h : x.interval.Covers ((num : ℚ) / den)) :
    nearest num den = x.magnitude := by
  obtain ⟨hlow, -, hhigh⟩ := interval_spec hx
  obtain ⟨hbelow, habove⟩ := h.bounds
  have hclosed : x.significand % 2 = 0 ∨ x.size - x.reachBelow < num / den ∧
      (num : ℚ) / den < x.size + 2 ^ (x.exponent - 1) := by
    rw [Interval.Covers, hlow, hhigh] at h
    split at h
    · rename_i hclosed
      exact .inl (by simpa [interval] using hclosed)
    · exact .inr h
  rw [hlow] at hbelow
  rw [hhigh] at habove
  have hreach := x.reachBelow_le
  have hpos : (0 : ℚ) < 2 ^ (x.exponent - 1) := by positivity
  have hunit := (two_mul_half x.exponent).symm
  have hone : (1 : ℚ) ≤ x.significand := by exact_mod_cast hx
  have hsize : 2 * (2 : ℚ) ^ (x.exponent - 1) ≤ x.size := by
    rw [size, ← hunit]
    exact le_mul_of_one_le_left (by positivity) hone
  have hnum : 0 < num := by
    have hpositive : (0 : ℚ) < num / den := by linarith
    rwa [div_pos_iff_of_pos_right (Nat.cast_pos.mpr hden), Nat.cast_pos] at hpositive
  by_cases hless : x.exponent ≠ -1074 ∧ (num : ℚ) / den < exponentWeight * 2 ^ x.exponent
  · exact nearest_of_carry hfinite hless.1 hnum hden hbelow hless.2
  · have hexponent : ratioExponent num den = x.exponent := by
      refine ratioExponent_unique hnum hden x.exponent_ge ?_ ?_
      · have hmax : (x.significand : ℚ) + 1 ≤ 2 * exponentWeight := by
          exact_mod_cast x.significand_lt
        have hmul := mul_le_mul_of_nonneg_right hmax hpos.le
        rw [div_lt_iff₀ (by positivity), hunit]
        rw [size, hunit] at habove
        linarith
      · rw [not_and_or, not_not, not_lt] at hless
        exact hless.imp id fun hless => (le_div_iff₀ (by positivity)).mpr hless
    rw [nearest_eq_of_near (m := x.significand) hnum hden hexponent ?_ ?_ ?_]
    · exact pattern_eq_magnitude hfinite x.exponent_ge x.magnitude_eq.symm
    all_goals
      rw [size, hunit] at hbelow habove hclosed
      rw [hunit]
    · linarith
    · linarith
    · refine hclosed.imp id fun hinside => ?_
      constructor <;> linarith [hinside.1, hinside.2]

end Telemetry.Binary64
