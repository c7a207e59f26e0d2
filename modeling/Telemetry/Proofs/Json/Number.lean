import Telemetry.Proofs.Binary64.Error
import Telemetry.Proofs.Json.Digits

/-!
# Decimals that are read

The text of a number is its shortest decimal in one of four shapes: below one, with digits on both
sides of the point, whole, and with an exponent. In each of them the reader collects the digits as
one number and counts the places behind the point, so that it is left with the decimal that was
written. A whole number is written with a further digit, the zero behind its point.

## Main definitions

* `Telemetry.Binary64.Decimal.chars` — a decimal in a document
* `Telemetry.Binary64.Decimal.written` — the decimal as its text shows it

## Main results

* `Telemetry.Json.anyNumber_number` — the text of a number is read as its decimal
-/

namespace Telemetry

namespace Binary64

/-- The order of magnitude of the first digit. -/
def Decimal.order (d : Decimal) : ℤ := d.exponent + (Nat.toDigits 10 d.digits).length - 1

/-- A decimal in a document. -/
def Decimal.chars (d : Decimal) : List Char :=
  if decide (-5 ≤ d.order) && decide (d.order ≤ 15) then
    plainChars true (Nat.toDigits 10 d.digits) d.order
  else scientificChars (Nat.toDigits 10 d.digits) d.order

/-- A decimal as its text shows it. -/
def Decimal.written (d : Decimal) : Decimal :=
  if 0 ≤ d.exponent ∧ d.order ≤ 15 then ⟨d.digits * 10 ^ (d.exponent.toNat + 1), -1⟩ else d

theorem Decimal.value_written (d : Decimal) : d.written.value = d.value := by
  rw [written]
  split
  · rename_i h
    obtain ⟨k, hk⟩ := Int.eq_ofNat_of_zero_le h.1
    rw [value, value, hk, Int.toNat_natCast, zpow_natCast, Nat.cast_mul, Nat.cast_pow, pow_succ]
    norm_num
    ring
  · rfl

theorem chars_documentStyle (x : Binary64) :
    documentStyle.chars x =
      if x.negative then '-' :: (x.shortest .toEven).chars else (x.shortest .toEven).chars := rfl

end Binary64

namespace Json

open Binary64 (Decimal plainChars scientificChars)

variable {ε : Type} {negative : Bool}

/-! ### Parts of a number -/

theorem ofDigitChars_zeros (k acc : ℕ) :
    Nat.ofDigitChars 10 (List.replicate k '0') acc = acc * 10 ^ k := by
  induction k generalizing acc with
  | zero => rw [pow_zero, mul_one]; rfl
  | succ k ih =>
    rw [List.replicate_succ, Nat.ofDigitChars_cons, ih, pow_succ]
    simp
    ring

/-- The digits behind a point join those before it. -/
theorem fractionPart_ascii {ds : List Char} (hds : ∀ c ∈ ds, c.isDigit) (hne : ds ≠ [])
    {significand : ℕ} (hbound : Nat.ofDigitChars 10 ds significand ≤ maxSignificand) (e : ℤ)
    {s : Bytes} (hs : atDigit s = false) :
    fractionPart (ε := ε) negative significand e (Bytes.ascii ds ++ s)
      = numberEnd negative (Nat.ofDigitChars 10 ds significand) (e - ds.length) s := by
  have hlen : 0 + ds.length ≠ 0 := by
    rw [Nat.zero_add]
    exact mt List.length_eq_zero_iff.mp hne
  rw [fractionPart, boundedDigits_ascii hds hbound hs]
  dsimp only
  rw [if_neg (by rw [hs]; decide), if_neg hlen, Nat.zero_add]

theorem exponentDigits_ascii (significand : ℕ) (e : ℤ) (down : Bool) {k : ℕ}
    (hk : k ≤ maxExponent) :
    exponentDigits (ε := ε) negative significand e down (Bytes.ascii (Nat.toDigits 10 k))
      = assemble negative significand (if down then e - k else e + k) [] := by
  have hbound : Nat.ofDigitChars 10 (Nat.toDigits 10 k) 0 ≤ maxExponent := by
    rwa [Nat.ofDigitChars_ten_toDigits]
  have hread := boundedDigits_ascii (fun c => isDigit_toDigits) hbound (s := []) rfl 0
  rw [List.append_nil, Nat.ofDigitChars_ten_toDigits] at hread
  obtain ⟨c, cs, hcs⟩ := List.exists_cons_of_ne_nil (Nat.toDigits_ne_nil (n := k) (b := 10))
  have hc : Bytes.isDigit (UInt8.ofNat c.toNat) = true :=
    Bytes.isDigit_ofNat (isDigit_toDigits (hcs ▸ List.mem_cons_self ..))
  rw [hcs, Bytes.ascii_cons] at hread ⊢
  rw [exponentDigits, if_pos hc, hread]
  rfl

/-- An exponent is added, with its sign. -/
theorem exponentPart_ascii (significand : ℕ) (e order : ℤ) (horder : order.natAbs ≤ maxExponent) :
    exponentPart (ε := ε) negative significand e
        (Bytes.ascii ((if order < 0 then '-' else '+') :: Nat.toDigits 10 order.natAbs))
      = assemble negative significand (e + order) [] := by
  rw [Bytes.ascii_cons]
  by_cases hneg : order < 0
  · rw [if_pos hneg]
    refine (exponentPart_minus _).trans ((exponentDigits_ascii _ _ _ horder).trans ?_)
    rw [if_pos rfl]
    congr 1
    omega
  · rw [if_neg hneg]
    refine (exponentPart_plus _).trans ((exponentDigits_ascii _ _ _ horder).trans ?_)
    rw [if_neg (by decide)]
    congr 1
    omega

/-- What stands behind the digits: nothing, or an order of magnitude behind an `e`. -/
inductive ExponentText : List Char → ℤ → Prop where
  | none : ExponentText [] 0
  | some {order : ℤ} (h : order.natAbs ≤ maxExponent) :
      ExponentText ('e' :: (if order < 0 then '-' else '+') :: Nat.toDigits 10 order.natAbs) order

theorem ExponentText.atDigit {t : List Char} {order : ℤ} (h : ExponentText t order) :
    Json.atDigit (Bytes.ascii t) = false := by
  cases h <;> rfl

theorem ascii_of_isDigit {ds : List Char} (h : ∀ c ∈ ds, c.isDigit) : ∀ c ∈ ds, c.toNat < 128 :=
  fun c hc => Nat.lt_of_le_of_lt (Bytes.toNat_of_isDigit (h c hc)).2 (by decide)

theorem ascii_exponent (order : ℤ) :
    ∀ c ∈ 'e' :: (if order < 0 then '-' else '+') :: Nat.toDigits 10 order.natAbs,
      c.toNat < 128 := by
  intro c hc
  rcases List.mem_cons.mp hc with rfl | hc
  · decide
  · rcases List.mem_cons.mp hc with rfl | hc
    · split <;> decide
    · exact ascii_of_isDigit (fun b => isDigit_toDigits) c hc

theorem ExponentText.ascii {t : List Char} {order : ℤ} (h : ExponentText t order) :
    ∀ c ∈ t, c.toNat < 128 := by
  cases h with
  | none => exact fun c hc => absurd hc List.not_mem_nil
  | some _ => exact ascii_exponent order

theorem numberEnd_ascii {t : List Char} {order : ℤ} (h : ExponentText t order) (significand : ℕ)
    (e : ℤ) : numberEnd (ε := ε) negative significand e (Bytes.ascii t)
      = assemble negative significand (e + order) [] := by
  cases h with
  | none =>
    rw [add_zero]
    rfl
  | some horder => exact exponentPart_ascii significand e order horder

/-! ### Texts of decimals -/

/-- A text that is read as a decimal, behind either sign. -/
structure ReadsDecimal (cs : List Char) (d : Decimal) : Prop where
  ascii : ∀ c ∈ cs, c.toNat < 128
  whole : ∃ whole rest, cs = whole ++ rest ∧ WholeDigits whole
  body : ∀ {ε : Type} (negative : Bool),
    numberBody (ε := ε) negative (Bytes.ascii cs) = assemble negative d.digits d.exponent []

section

variable {d : Decimal}

theorem readsDecimal_point {whole fraction t : List Char} {order : ℤ} (hwhole : WholeDigits whole)
    (hfraction : ∀ c ∈ fraction, c.isDigit) (hne : fraction ≠ []) (ht : ExponentText t order)
    (hdigits : Nat.ofDigitChars 10 (whole ++ fraction) 0 = d.digits)
    (hexponent : d.exponent = order - fraction.length) (hbound : d.digits ≤ maxSignificand) :
    ReadsDecimal (whole ++ '.' :: (fraction ++ t)) d := by
  rw [Nat.ofDigitChars_append] at hdigits
  rw [← hdigits] at hbound
  refine ⟨?_, ⟨whole, _, rfl, hwhole⟩, fun negative => ?_⟩
  · rw [List.forall_mem_append, List.forall_mem_cons, List.forall_mem_append]
    exact ⟨ascii_of_isDigit hwhole.1, by decide, ascii_of_isDigit hfraction, ht.ascii⟩
  rw [Bytes.ascii_append, Bytes.ascii_cons, Bytes.ascii_append,
    numberBody_ascii negative hwhole ((le_ofDigitChars fraction _).trans hbound) rfl]
  refine (fractionPart_ascii hfraction hne hbound 0 ht.atDigit).trans
    ((numberEnd_ascii ht _ _).trans ?_)
  rw [hdigits, hexponent]
  congr 1
  ring

theorem readsDecimal_exponent {whole : List Char} (hwhole : WholeDigits whole)
    (hdigits : Nat.ofDigitChars 10 whole 0 = d.digits)
    (hexponent : d.exponent.natAbs ≤ maxExponent) (hbound : d.digits ≤ maxSignificand) :
    ReadsDecimal (whole ++ 'e' :: (if d.exponent < 0 then '-' else '+') ::
      Nat.toDigits 10 d.exponent.natAbs) d := by
  refine ⟨?_, ⟨whole, _, rfl, hwhole⟩, fun negative => ?_⟩
  · rw [List.forall_mem_append]
    exact ⟨ascii_of_isDigit hwhole.1, ascii_exponent _⟩
  rw [Bytes.ascii_append, numberBody_ascii negative hwhole (hdigits.trans_le hbound) rfl,
    Bytes.ascii_cons, numberRest_of_ne_point (by rintro r ⟨⟩)]
  refine (if_pos rfl).trans ((exponentPart_ascii _ _ _ hexponent).trans ?_)
  rw [zero_add, hdigits]

theorem ofDigitChars_digits (d : Decimal) :
    Nat.ofDigitChars 10 (Nat.toDigits 10 d.digits) 0 = d.digits := Nat.ofDigitChars_ten_toDigits

/-- The first digits of a number stand before a point. -/
theorem wholeDigits_take {n k : ℕ} (hk : 0 < k) : WholeDigits ((Nat.toDigits 10 n).take k) := by
  obtain ⟨c, cs, hcs⟩ := List.exists_cons_of_ne_nil (Nat.toDigits_ne_nil (n := n) (b := 10))
  obtain ⟨j, rfl⟩ : ∃ j, k = j + 1 := ⟨k - 1, by omega⟩
  refine ⟨fun b hb => isDigit_toDigits (List.mem_of_mem_take hb), ?_⟩
  obtain hzero | hn := Nat.eq_zero_or_pos n
  · left
    rw [hzero, Nat.toDigits_zero, List.take_succ_cons, List.take_nil]
  · obtain ⟨c, cs, hcs, hc⟩ := toDigits_eq_cons hn.ne'
    exact .inr ⟨c, cs.take j, by rw [hcs, List.take_succ_cons], hc⟩

theorem readsDecimal_scientific (hdigits : d.digits ≤ maxSignificand)
    (horder : d.order.natAbs ≤ maxExponent) :
    ReadsDecimal (scientificChars (Nat.toDigits 10 d.digits) d.order) d := by
  have hvalue := ofDigitChars_digits d
  have hdigit : ∀ c ∈ Nat.toDigits 10 d.digits, c.isDigit := fun c => isDigit_toDigits
  have hhead := wholeDigits_take (n := d.digits) Nat.one_pos
  have hlen : d.order = d.exponent + (Nat.toDigits 10 d.digits).length - 1 := rfl
  cases hds : Nat.toDigits 10 d.digits with
  | nil => exact absurd hds Nat.toDigits_ne_nil
  | cons c cs =>
    rw [hds] at hvalue hdigit hhead hlen
    cases cs with
    | nil =>
      rw [show d.order = d.exponent by simpa using hlen] at horder ⊢
      exact readsDecimal_exponent hhead hvalue horder hdigits
    | cons c' cs =>
      have hfraction : ∀ b ∈ c' :: cs, b.isDigit := fun b hb =>
        hdigit b (List.mem_cons_of_mem _ hb)
      refine readsDecimal_point hhead hfraction (List.cons_ne_nil _ _) (.some horder) hvalue ?_
        hdigits
      rw [hlen]
      simp only [List.length_cons]
      push_cast
      ring

/-- A number with digits behind the point, below one or not. -/
theorem plainChars_point (mark : Bool) (hexponent : d.exponent < 0) :
    ∃ whole fraction, plainChars mark (Nat.toDigits 10 d.digits) d.order
        = whole ++ '.' :: fraction ∧
      WholeDigits whole ∧ (∀ c ∈ fraction, c.isDigit) ∧ fraction.length = -d.exponent ∧
      Nat.ofDigitChars 10 (whole ++ fraction) 0 = d.digits := by
  have hvalue := ofDigitChars_digits d
  have hdigit : ∀ c ∈ Nat.toDigits 10 d.digits, c.isDigit := fun c => isDigit_toDigits
  have hlen : d.order = d.exponent + (Nat.toDigits 10 d.digits).length - 1 := rfl
  by_cases horder : d.order < 0
  · refine ⟨['0'], List.replicate (-d.order - 1).toNat '0' ++ Nat.toDigits 10 d.digits,
      if_pos horder, ⟨List.forall_mem_singleton.mpr rfl, .inl rfl⟩, ?_, ?_, ?_⟩
    · intro c hc
      rcases List.mem_append.mp hc with hc | hc
      · rw [List.eq_of_mem_replicate hc]
        decide
      · exact hdigit c hc
    · rw [List.length_append, List.length_replicate]
      omega
    · rw [Nat.ofDigitChars_append, Nat.ofDigitChars_append, ofDigitChars_zeros]
      simp [Nat.ofDigitChars_cons]
  · obtain ⟨n, hn⟩ : ∃ n, d.order.toNat + 1 = n := ⟨_, rfl⟩
    have hlt : n < (Nat.toDigits 10 d.digits).length := by omega
    have hdrop : (Nat.toDigits 10 d.digits).drop n ≠ [] := by
      rw [Ne, List.drop_eq_nil_iff]
      omega
    refine ⟨(Nat.toDigits 10 d.digits).take n, (Nat.toDigits 10 d.digits).drop n, ?_,
      wholeDigits_take (by omega), fun c hc => hdigit c (List.mem_of_mem_drop hc), ?_, ?_⟩
    · rw [plainChars, if_neg horder]
      dsimp only
      rw [hn, Nat.sub_eq_zero_of_le hlt.le, List.replicate_zero, List.append_nil]
      split
      · exact absurd ‹_› hdrop
      · rfl
    · rw [List.length_drop]
      omega
    · rw [List.take_append_drop]
      exact hvalue

/-- A whole number has zeros for the places that its digits do not reach. -/
theorem plainChars_whole (mark : Bool) (hexponent : 0 ≤ d.exponent) :
    plainChars mark (Nat.toDigits 10 d.digits) d.order
      = Nat.toDigits 10 d.digits ++ List.replicate d.exponent.toNat '0' ++
        (if mark then ['.', '0'] else []) := by
  have hlen : d.order = d.exponent + (Nat.toDigits 10 d.digits).length - 1 := rfl
  have hpos := Binary64.toDigits_length_pos d.digits
  have hplaces : d.order.toNat + 1 - (Nat.toDigits 10 d.digits).length = d.exponent.toNat := by
    omega
  have htake : (Nat.toDigits 10 d.digits).take (d.order.toNat + 1) = Nat.toDigits 10 d.digits :=
    List.take_of_length_le (by omega)
  have hdrop : (Nat.toDigits 10 d.digits).drop (d.order.toNat + 1) = [] :=
    List.drop_eq_nil_of_le (by omega)
  rw [plainChars, if_neg (by omega)]
  dsimp only
  rw [hplaces, htake, hdrop]
  cases mark <;> simp

/-- The digits of a whole number do not start with a zero, unless it is zero. -/
theorem wholeDigits_zeros (hzero : d.digits = 0 → d.exponent = 0) :
    WholeDigits (Nat.toDigits 10 d.digits ++ List.replicate d.exponent.toNat '0') := by
  refine ⟨fun c hc => ?_, ?_⟩
  · rcases List.mem_append.mp hc with hc | hc
    · exact isDigit_toDigits hc
    · rw [List.eq_of_mem_replicate hc]
      decide
  · by_cases h : d.digits = 0
    · rw [h, hzero h]
      exact .inl rfl
    · obtain ⟨c, cs, hcs, hc⟩ := toDigits_eq_cons h
      exact .inr ⟨c, cs ++ List.replicate d.exponent.toNat '0', by rw [hcs]; rfl, hc⟩

theorem ofDigitChars_zeros_append (d : Decimal) (k : ℕ) :
    Nat.ofDigitChars 10 (Nat.toDigits 10 d.digits ++ List.replicate k '0') 0
      = d.digits * 10 ^ k := by
  rw [Nat.ofDigitChars_append, ofDigitChars_digits, ofDigitChars_zeros]

theorem readsDecimal_fraction (hdigits : d.digits ≤ maxSignificand) (hexponent : d.exponent < 0) :
    ReadsDecimal (plainChars true (Nat.toDigits 10 d.digits) d.order) d := by
  obtain ⟨whole, fraction, htext, hwhole, hfraction, hlength, hvalue⟩ :=
    plainChars_point true hexponent
  have hne : fraction ≠ [] := by
    rintro rfl
    simp at hlength
    omega
  have hread := readsDecimal_point (d := d) hwhole hfraction hne .none hvalue (by omega) hdigits
  rwa [List.append_nil, ← htext] at hread

/-- A whole number has a zero behind the point. -/
theorem readsDecimal_whole (hzero : d.digits = 0 → d.exponent = 0) (hexponent : 0 ≤ d.exponent)
    (hbound : d.digits * 10 ^ (d.exponent.toNat + 1) ≤ maxSignificand) :
    ReadsDecimal (plainChars true (Nat.toDigits 10 d.digits) d.order)
      ⟨d.digits * 10 ^ (d.exponent.toNat + 1), -1⟩ := by
  have hread : ReadsDecimal (Nat.toDigits 10 d.digits ++ List.replicate d.exponent.toNat '0' ++
      '.' :: (['0'] ++ [])) ⟨d.digits * 10 ^ (d.exponent.toNat + 1), -1⟩ := by
    refine readsDecimal_point (wholeDigits_zeros hzero) (List.forall_mem_singleton.mpr rfl)
      (List.cons_ne_nil _ _) .none ?_ rfl hbound
    rw [Nat.ofDigitChars_append, ofDigitChars_zeros_append, pow_succ]
    simp [Nat.ofDigitChars_cons]
    ring
  rw [plainChars_whole true hexponent]
  exact hread

/-- **The text of a decimal is read as it stands there.** -/
theorem readsDecimal_chars (hdigits : d.written.digits ≤ maxSignificand)
    (hzero : d.digits = 0 → d.exponent = 0) (horder : d.order.natAbs ≤ maxExponent) :
    ReadsDecimal d.chars d.written := by
  have hlen : d.order = d.exponent + (Nat.toDigits 10 d.digits).length - 1 := rfl
  have hpos := Binary64.toDigits_length_pos d.digits
  rw [Decimal.written] at hdigits ⊢
  rw [Decimal.chars]
  split at hdigits
  · rename_i hwhole
    rw [if_pos hwhole, if_pos (by simp; omega)]
    exact readsDecimal_whole hzero hwhole.1 hdigits
  · rename_i hwhole
    rw [if_neg hwhole]
    split
    · rename_i hplain
      simp only [Bool.and_eq_true, decide_eq_true_eq] at hplain
      exact readsDecimal_fraction hdigits (by omega)
    · exact readsDecimal_scientific hdigits horder

end

end Json

/-! ### Decimals of numbers -/

namespace Binary64

theorem overflow_lt : overflow < (10 : ℚ) ^ (309 : ℤ) := by
  obtain ⟨j, k, hj, hk, hlt⟩ : ∃ j k : ℕ, (j : ℤ) = 970 ∧ (k : ℤ) = 309 ∧
      (2 ^ 54 - 1) * Nat.pow 2 j < Nat.pow 10 k := ⟨970, 309, rfl, rfl, by decide +kernel⟩
  calc overflow = ((2 ^ 54 - 1) * Nat.pow 2 j : ℕ) := overflow_eq hj
    _ < (Nat.pow 10 k : ℕ) := Nat.cast_lt.mpr hlt
    _ = (10 : ℚ) ^ (309 : ℤ) := by rw [← hk, zpow_natCast, cast_pow, Nat.cast_ofNat]

theorem lt_halfLeast : (10 : ℚ) ^ (-324 : ℤ) < halfLeast := by
  obtain ⟨j, k, hj, hk, hlt⟩ : ∃ j k : ℕ, (j : ℤ) = 1075 ∧ (k : ℤ) = 324 ∧
      Nat.pow 2 j < Nat.pow 10 k := ⟨1075, 324, rfl, rfl, by decide +kernel⟩
  rw [halfLeast, ← hj, ← hk, zpow_neg, zpow_neg, zpow_natCast, zpow_natCast]
  refine inv_strictAnti₀ (by positivity) ?_
  calc (2 : ℚ) ^ j = (Nat.pow 2 j : ℕ) := (cast_pow 2 j).symm
    _ < (Nat.pow 10 k : ℕ) := Nat.cast_lt.mpr hlt
    _ = (10 : ℚ) ^ k := cast_pow 10 k

/-- Where the shortest decimal of a number is. -/
structure Decimal.InRange (d : Decimal) : Prop where
  digits_ne : d.digits ≠ 0
  digits_le : d.digits ≤ 10 ^ 17
  exponent_ge : -340 ≤ d.exponent
  exponent_le : d.exponent ≤ 308

theorem inRange_of_value {d : Decimal} (hdigits : d.digits ≤ 10 ^ 17)
    (hlow : halfLeast ≤ d.value) (hhigh : d.value ≤ overflow) : d.InRange := by
  have hpos : 0 < d.value := halfLeast_pos.trans_le hlow
  have hne : d.digits ≠ 0 := by
    intro h
    rw [Decimal.value, h, Nat.cast_zero, zero_mul] at hpos
    exact lt_irrefl 0 hpos
  have hone : (1 : ℚ) ≤ d.digits := by exact_mod_cast Nat.pos_of_ne_zero hne
  have hcast : (d.digits : ℚ) ≤ 10 ^ (17 : ℤ) := by exact_mod_cast hdigits
  have hpow : (0 : ℚ) < 10 ^ d.exponent := by positivity
  refine ⟨hne, hdigits, ?_, ?_⟩
  · have hlt : (10 : ℚ) ^ (-324 : ℤ) < 10 ^ (17 + d.exponent) := by
      rw [zpow_add₀ (by norm_num)]
      calc (10 : ℚ) ^ (-324 : ℤ) < halfLeast := lt_halfLeast
        _ ≤ d.digits * 10 ^ d.exponent := hlow
        _ ≤ 10 ^ (17 : ℤ) * 10 ^ d.exponent := mul_le_mul_of_nonneg_right hcast hpow.le
    have := (zpow_lt_zpow_iff_right₀ (by norm_num : (1 : ℚ) < 10)).mp hlt
    omega
  · have hlt : (10 : ℚ) ^ d.exponent < 10 ^ (309 : ℤ) := by
      calc (10 : ℚ) ^ d.exponent ≤ d.digits * 10 ^ d.exponent := le_mul_of_one_le_left hpow.le hone
        _ ≤ overflow := hhigh
        _ < 10 ^ (309 : ℤ) := overflow_lt
    have := (zpow_lt_zpow_iff_right₀ (by norm_num : (1 : ℚ) < 10)).mp hlt
    omega

theorem inRange_shortest {x : Binary64} (hfinite : x.isFinite = true) (hx : 0 < x.significand)
    (tie : Tie) : (x.shortest tie).InRange := by
  obtain ⟨hcovers, hdigits⟩ := shortest_spec hx tie
  exact inRange_of_value hdigits (pos_of_covers hx hcovers)
    ((covers_bounds hx hcovers).2.trans (size_add_half_le_overflow hfinite))

namespace Decimal

variable {d : Decimal}

theorem InRange.order (h : d.InRange) : d.order.natAbs ≤ 400 := by
  have hlen : (Nat.toDigits 10 d.digits).length ≤ 18 :=
    (Nat.length_toDigits_le_iff (by decide) (by decide)).mpr
      (lt_of_le_of_lt h.digits_le (by decide))
  have hge := h.exponent_ge
  have hle := h.exponent_le
  rw [Decimal.order]
  omega

/-- Written out, a decimal has one digit more at most. -/
theorem InRange.written (h : d.InRange) : d.written.InRange := by
  rw [Decimal.written]
  split
  · rename_i hwhole
    refine ⟨mul_ne_zero h.digits_ne (by positivity), ?_,
      (by decide : (-340 : ℤ) ≤ -1), (by decide : (-1 : ℤ) ≤ 308)⟩
    have hlt : d.digits < 10 ^ (Nat.toDigits 10 d.digits).length :=
      (Nat.length_toDigits_le_iff (by decide) (toDigits_length_pos _)).mp le_rfl
    have hplaces : (Nat.toDigits 10 d.digits).length + (d.exponent.toNat + 1) ≤ 17 := by
      have horder := hwhole.2
      rw [Decimal.order] at horder
      omega
    calc d.digits * 10 ^ (d.exponent.toNat + 1)
        ≤ 10 ^ (Nat.toDigits 10 d.digits).length * 10 ^ (d.exponent.toNat + 1) :=
          Nat.mul_le_mul_right _ hlt.le
      _ = 10 ^ ((Nat.toDigits 10 d.digits).length + (d.exponent.toNat + 1)) := (pow_add _ _ _).symm
      _ ≤ 10 ^ 17 := Nat.pow_le_pow_right (by decide) hplaces
  · exact h

end Decimal

end Binary64

namespace Json

open Binary64 (Decimal)

/-- A sign before the text of a decimal is the sign that it is read with. -/
theorem ReadsDecimal.anyNumber {ε : Type} {cs : List Char} {d : Decimal} (h : ReadsDecimal cs d)
    (negative : Bool) :
    Json.anyNumber (ε := ε)
        (Bytes.ofText (String.ofList (if negative then '-' :: cs else cs)))
      = assemble negative d.digits d.exponent [] := by
  cases negative with
  | true =>
    rw [if_pos rfl, Bytes.ofText_ofList_ascii (List.forall_mem_cons.mpr ⟨by decide, h.ascii⟩),
      Bytes.ascii_cons]
    exact (anyNumber_minus _).trans (h.body true)
  | false =>
    obtain ⟨whole, rest, hcs, hwhole⟩ := h.whole
    have hbody := h.body (ε := ε) false
    rw [if_neg (by decide), Bytes.ofText_ofList_ascii h.ascii]
    rw [hcs, Bytes.ascii_append] at hbody ⊢
    exact (anyNumber_ascii hwhole _).trans hbody

/-- **The text of a number is read as its decimal**, up to what is made of it. -/
theorem anyNumber_number {ε : Type} {x : Binary64} (hfinite : x.isFinite = true)
    (hx : 0 < x.significand) :
    anyNumber (ε := ε) (number x) = assemble x.negative (x.shortest .toEven).written.digits
      (x.shortest .toEven).written.exponent [] := by
  have hrange := Binary64.inRange_shortest hfinite hx .toEven
  have hread : ReadsDecimal (x.shortest .toEven).chars (x.shortest .toEven).written :=
    readsDecimal_chars (hrange.written.digits_le.trans (by decide))
      (fun h => absurd h hrange.digits_ne) (hrange.order.trans (by decide))
  rw [number, if_pos hfinite, Binary64.document, Binary64.chars_documentStyle]
  exact hread.anyNumber x.negative

end Json

end Telemetry
