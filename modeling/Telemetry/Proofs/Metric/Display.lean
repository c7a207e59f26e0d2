import Telemetry.Metric.Draft
import Telemetry.Proofs.Json.Number

/-!
# Values that are displayed and read

The text of a value on a page or in an address is read as the value: a counter at both ends of the
range too, and a finite level because its shortest digits single it out and are rounded correctly,
unlike in a document. Such a text has no characters but digits, a point and a sign.

## Main results

* `Telemetry.Integer.read64_text` — a counter comes back
* `Telemetry.Binary64.read?_display` — a finite level comes back
* `Telemetry.Value.read_display` — so does every finite value
-/

namespace Telemetry

/-! ### Integers -/

namespace Integer

variable {inRange : ℤ → Bool} {fault : Fault} {negative : Bool} {ds : List Char}

/-- A number behind a sign. -/
def signed (negative : Bool) (n : ℕ) : ℤ := if negative then -n else n

theorem signed_natAbs (n : ℤ) : signed (decide (n < 0)) n.natAbs = n := by
  rw [signed]
  split <;> rename_i h <;> rw [decide_eq_true_eq] at h <;> omega

theorem signed_digit (negative : Bool) (acc k : ℕ) :
    (if negative then 10 * signed negative acc - (k : ℤ) else 10 * signed negative acc + (k : ℤ))
      = signed negative (10 * acc + k) := by
  cases negative
  · simp [signed]
  · simp [signed]
    ring

/-- Digits are added up as long as every number on the way is in range. -/
theorem accumulate_digits (hds : ∀ c ∈ ds, c.isDigit) {acc : ℕ}
    (hrange : ∀ n ≤ Nat.ofDigitChars 10 ds acc, inRange (signed negative n) = true) :
    accumulate inRange fault negative (signed negative acc) ds
      = .ok (signed negative (Nat.ofDigitChars 10 ds acc)) := by
  induction ds generalizing acc with
  | nil => rfl
  | cons c ds ih =>
    obtain ⟨hc, hds⟩ := List.forall_mem_cons.mp hds
    rw [Nat.ofDigitChars_cons, show '0'.toNat = 48 from rfl] at hrange ⊢
    have hnext := hrange _ (le_ofDigitChars ds _)
    simp only [accumulate, hc, if_true, signed_digit]
    rw [if_pos hnext]
    exact ih hds hrange

/-- An integer in range is read from its text. -/
theorem read_chars {lo hi n : ℤ} (hlo : lo ≤ 0) (hhi : 0 ≤ hi) (hn : lo ≤ n ∧ n ≤ hi) :
    read lo hi (chars n) = .ok n := by
  have hdigits : ∀ c ∈ Nat.toDigits 10 n.natAbs, c.isDigit := fun c => isDigit_toDigits
  have hvalue : Nat.ofDigitChars 10 (Nat.toDigits 10 n.natAbs) 0 = n.natAbs :=
    Nat.ofDigitChars_ten_toDigits
  obtain ⟨c, cs, hcs⟩ := List.exists_cons_of_ne_nil (Nat.toDigits_ne_nil (n := n.natAbs) (b := 10))
  have hc := Bytes.toNat_of_isDigit (hdigits c (hcs ▸ List.mem_cons_self))
  have hplus : c ≠ '+' := by
    rintro rfl
    exact absurd hc.1 (by decide)
  have hminus : c ≠ '-' := by
    rintro rfl
    exact absurd hc.1 (by decide)
  rw [hcs] at hdigits hvalue
  have hread : ∀ fault, accumulate (fun n => decide (lo ≤ n) && decide (n ≤ hi)) fault
      (decide (n < 0)) 0 (c :: cs) = .ok n := by
    intro fault
    let inRange (n : ℤ) : Bool := decide (lo ≤ n) && decide (n ≤ hi)
    have hrange : ∀ k ≤ Nat.ofDigitChars 10 (c :: cs) 0,
        inRange (signed (decide (n < 0)) k) = true := by
      rw [hvalue]
      intro k hk
      simp only [inRange, signed, decide_eq_true_eq, Bool.and_eq_true]
      split <;> omega
    have hall : accumulate inRange fault (decide (n < 0)) (signed (decide (n < 0)) 0) (c :: cs)
        = _ := accumulate_digits hdigits hrange
    rw [hvalue, signed_natAbs] at hall
    simpa [signed] using hall
  rw [chars, hcs]
  by_cases hneg : n < 0
  · rw [if_pos hneg]
    have h := hread .tooSmall
    rw [decide_eq_true hneg] at h
    simpa [read, show lo < 0 by omega] using h
  · have h := hread .tooLarge
    rw [decide_eq_false hneg] at h
    rw [if_neg hneg, read.eq_def]
    simpa [hplus, hminus] using h

/-- **A counter comes back** from its text. -/
theorem read64_text (n : Int64) : read64 (text n.toInt) = .ok n := by
  have hrange : Int64.minValue.toInt ≤ n.toInt ∧ n.toInt ≤ Int64.maxValue.toInt :=
    ⟨n.minValue_le_toInt, n.toInt_le⟩
  rw [read64, text, String.toList_ofList, read_chars (by decide) (by decide) hrange]
  exact congrArg Except.ok (Int64.ofInt_toInt n)

end Integer

/-! ### Levels -/

namespace Binary64

variable {negative : Bool} {ds whole fraction rest : List Char}

theorem takeDigits_append (hds : ∀ c ∈ ds, c.isDigit)
    (hrest : ∀ c cs, rest = c :: cs → c.isDigit = false) (acc count : ℕ) :
    takeDigits acc count (ds ++ rest)
      = (Nat.ofDigitChars 10 ds acc, count + ds.length, rest) := by
  induction ds generalizing acc count with
  | nil =>
    cases rest with
    | nil => rfl
    | cons c cs => simp [takeDigits, hrest c cs rfl]
  | cons c ds ih =>
    obtain ⟨hc, hds⟩ := List.forall_mem_cons.mp hds
    rw [List.cons_append, takeDigits, if_pos hc, ih hds, Nat.ofDigitChars_cons, List.length_cons,
      Nat.add_right_comm, Nat.add_assoc]
    rfl

theorem takeDigits_self (hds : ∀ c ∈ ds, c.isDigit) (acc count : ℕ) :
    takeDigits acc count ds = (Nat.ofDigitChars 10 ds acc, count + ds.length, []) := by
  have hend : ∀ (c : Char) cs, ([] : List Char) = c :: cs → c.isDigit = false := by
    rintro c cs ⟨⟩
  have h := takeDigits_append hds hend acc count
  rwa [List.append_nil] at h

theorem readDecimal?_whole (hne : whole ≠ []) (hwhole : ∀ c ∈ whole, c.isDigit) :
    readDecimal? negative whole = some (ofDecimal negative (Nat.ofDigitChars 10 whole 0) 0) := by
  have hlength : whole.length ≠ 0 := mt List.length_eq_zero_iff.mp hne
  simp [readDecimal?, takeDigits_self hwhole, hlength, readExponent?]

theorem readDecimal?_point (hne : whole ≠ []) (hwhole : ∀ c ∈ whole, c.isDigit)
    (hfraction : ∀ c ∈ fraction, c.isDigit) :
    readDecimal? negative (whole ++ '.' :: fraction)
      = some (ofDecimal negative (Nat.ofDigitChars 10 (whole ++ fraction) 0)
          (-fraction.length)) := by
  have hlength : whole.length ≠ 0 := mt List.length_eq_zero_iff.mp hne
  have hpoint : ∀ c cs, '.' :: fraction = c :: cs → c.isDigit = false := by
    rintro c cs ⟨⟩
    rfl
  simp [readDecimal?, takeDigits_append hwhole hpoint, takeDigits_self hfraction, hlength,
    readExponent?, Nat.ofDigitChars_append]

theorem toLower_of_isDigit {c : Char} (hc : c.isDigit) : c.toLower = c := by
  have hlt : c.toNat < 65 := Nat.lt_of_le_of_lt (Bytes.toNat_of_isDigit hc).2 (by decide)
  have hletter : ¬ (c.val ≥ 'A'.val ∧ c.val ≤ 'Z'.val) :=
    fun h => Nat.not_le.mpr hlt (UInt32.le_iff_toNat_le.mp h.1)
  exact dif_neg hletter

/-- A text that begins with a digit, behind a sign or not, is that of a decimal. -/
theorem read?_digits (negative : Bool) {c : Char} (hc : c.isDigit) (cs : List Char) :
    read? (String.ofList (if negative then '-' :: c :: cs else c :: cs))
      = readDecimal? negative (c :: cs) := by
  have hrange := Bytes.toNat_of_isDigit hc
  have hsign : takeSign (if negative then '-' :: c :: cs else c :: cs) = (negative, c :: cs) := by
    have hplus : c ≠ '+' := by
      rintro rfl
      exact absurd hc (by decide)
    have hminus : c ≠ '-' := by
      rintro rfl
      exact absurd hc (by decide)
    cases negative
    · simp [takeSign, hplus, hminus]
    · rfl
  have hname : ∀ {d : Char} (ds : List Char), d.isDigit = false →
      String.ofList ((c :: cs).map Char.toLower) ≠ String.ofList (d :: ds) := by
    intro d ds hd h
    have hlist := String.ofList_injective h
    rw [List.map_cons, toLower_of_isDigit hc] at hlist
    rw [(List.cons.inj hlist).1, hd] at hc
    cases hc
  simp only [read?, String.toList_ofList, hsign]
  rw [if_neg ?_, if_neg ?_]
  · exact hname ['a', 'n'] (d := 'n') rfl
  · rw [Bool.or_eq_true, decide_eq_true_iff, decide_eq_true_iff, not_or]
    exact ⟨hname ['n', 'f'] (d := 'i') rfl,
      hname ['n', 'f', 'i', 'n', 'i', 't', 'y'] (d := 'i') rfl⟩

/-- A decimal as a page shows it: whole if it is a whole number. -/
def Decimal.shown (d : Decimal) : Decimal :=
  if 0 ≤ d.exponent then ⟨d.digits * 10 ^ d.exponent.toNat, 0⟩ else d

theorem Decimal.value_shown (d : Decimal) : d.shown.value = d.value := by
  rw [shown]
  split
  · rename_i h
    obtain ⟨k, hk⟩ := Int.eq_ofNat_of_zero_le h
    rw [value, value, hk, Int.toNat_natCast, zpow_natCast]
    norm_num
  · rfl

/-- The text of a decimal on a page is read as the decimal. -/
theorem readDecimal?_plainChars {d : Decimal} (hzero : d.digits = 0 → d.exponent = 0) :
    readDecimal? negative (plainChars false (Nat.toDigits 10 d.digits) d.order)
      = some (ofDecimal negative d.shown.digits d.shown.exponent) := by
  rw [Decimal.shown]
  split
  · rename_i hexponent
    have hwhole := Json.wholeDigits_zeros hzero
    rw [Json.plainChars_whole false hexponent, if_neg (by decide), List.append_nil,
      readDecimal?_whole (by simp) hwhole.1, Json.ofDigitChars_zeros_append]
  · rename_i hexponent
    obtain ⟨whole, fraction, htext, hwhole, hfraction, hlength, hvalue⟩ :=
      Json.plainChars_point (d := d) false (by omega)
    have hne : whole ≠ [] := by
      rcases hwhole.2 with rfl | ⟨c, cs, rfl, -⟩ <;> exact List.cons_ne_nil _ _
    rw [htext, readDecimal?_point hne hwhole.1 hfraction, hvalue, hlength, neg_neg]

theorem Decimal.InRange.shown_order {d : Decimal} (h : d.InRange) :
    -400 ≤ ((Nat.toDigits 10 d.shown.digits).length : ℤ) + d.shown.exponent ∧
      ((Nat.toDigits 10 d.shown.digits).length : ℤ) + d.shown.exponent ≤ 400 := by
  have hlen : ∀ {n k : ℕ}, 0 < k → n < 10 ^ k → (Nat.toDigits 10 n).length ≤ k := fun hk =>
    (Nat.length_toDigits_le_iff (by decide) hk).mpr
  have hlt : d.digits < 10 ^ 18 := lt_of_le_of_lt h.digits_le (by decide)
  have hge := h.exponent_ge
  have hle := h.exponent_le
  rw [Decimal.shown]
  split
  · have hwhole : d.digits * 10 ^ d.exponent.toNat < 10 ^ (18 + d.exponent.toNat) := by
      rw [pow_add]
      exact Nat.mul_lt_mul_of_pos_right hlt (by positivity)
    have hplaces := hlen (by omega) hwhole
    dsimp only
    omega
  · have hplaces := hlen (by decide) hlt
    omega

/-- A decimal that rounds to a number is read as the number. -/
theorem ofDecimal_of_covers {x : Binary64} (hfinite : x.isFinite = true) (hx : 0 < x.significand)
    {d : Decimal} (hcovers : x.interval.Covers d.value)
    (horder : -400 ≤ ((Nat.toDigits 10 d.digits).length : ℤ) + d.exponent ∧
      ((Nat.toDigits 10 d.digits).length : ℤ) + d.exponent ≤ 400) :
    ofDecimal x.negative d.digits d.exponent = x := by
  have hdigits : d.digits ≠ 0 := by
    intro hzero
    have hpos := halfLeast_pos.trans_le (pos_of_covers hx hcovers)
    rw [Decimal.value, hzero, Nat.cast_zero, zero_mul] at hpos
    exact lt_irrefl 0 hpos
  have hround : ∀ {num den : ℕ}, 0 < den → (num : ℚ) / den = d.value →
      ofRatio x.negative num den = x := by
    intro num den hden hvalue
    rw [ofRatio, nearest_of_covers hx hfinite hden (hvalue ▸ hcovers), ofSign_self]
  simp only [ofDecimal]
  rw [if_neg (by simp [hdigits]; omega), if_neg (by omega)]
  split
  · rename_i hexponent
    refine hround Nat.one_pos ?_
    rw [Nat.cast_mul, cast_pow_toNat hexponent, Nat.cast_one, div_one]
    rfl
  · rename_i hexponent
    refine hround (Nat.pow_pos (by decide)) ?_
    rw [cast_pow_toNat (by omega), zpow_neg, div_inv_eq_mul]
    rfl

/-- The text of a finite level on a page is a decimal behind a sign or not. -/
theorem display_of_isFinite {x : Binary64} (hfinite : x.isFinite = true) :
    x.display = String.ofList (if x.negative then '-' ::
        plainChars false (Nat.toDigits 10 (x.shortest .up).digits) (x.shortest .up).order
      else plainChars false (Nat.toDigits 10 (x.shortest .up).digits) (x.shortest .up).order) := by
  have hnan : x.isNaN = false := by
    simp only [isFinite, isNaN, decide_eq_true_eq, decide_eq_false_iff_not] at hfinite ⊢
    omega
  rw [display, if_neg (by simp [hnan]), if_neg (by simp [hfinite])]
  rfl

/-- The text of a decimal on a page has digits up to a point, if there is one. -/
theorem exists_plainChars {d : Decimal} (hzero : d.digits = 0 → d.exponent = 0) :
    ∃ whole rest, plainChars false (Nat.toDigits 10 d.digits) d.order = whole ++ rest ∧
      WholeDigits whole ∧ ∀ c ∈ rest, c.isDigit ∨ c = '.' := by
  by_cases hexponent : 0 ≤ d.exponent
  · refine ⟨_, [], Json.plainChars_whole false hexponent, Json.wholeDigits_zeros hzero, ?_⟩
    simp
  · obtain ⟨whole, fraction, htext, hwhole, hfraction, -⟩ :=
      Json.plainChars_point (d := d) false (by omega)
    refine ⟨whole, '.' :: fraction, htext, hwhole, fun c hc => ?_⟩
    rcases List.mem_cons.mp hc with rfl | hc
    · exact .inr rfl
    · exact .inl (hfraction c hc)

theorem shortest_zero {x : Binary64} (hfinite : x.isFinite = true) (tie : Tie) :
    (x.shortest tie).digits = 0 → (x.shortest tie).exponent = 0 := by
  obtain hzero | hx := Nat.eq_zero_or_pos x.significand
  · rw [shortest, if_pos hzero]
    exact fun _ => rfl
  · exact fun h => absurd h (inRange_shortest hfinite hx tie).digits_ne

/-- **A finite level comes back** from its text on a page. -/
theorem read?_display {x : Binary64} (hfinite : x.isFinite = true) :
    read? x.display = some x := by
  have hshortest := shortest_zero hfinite .up
  have hread : readDecimal? x.negative
      (plainChars false (Nat.toDigits 10 (x.shortest .up).digits) (x.shortest .up).order)
        = some x := by
    rw [readDecimal?_plainChars hshortest]
    obtain hzero | hx := Nat.eq_zero_or_pos x.significand
    · have hself : ofSign x.negative 0 = x := by
        rw [← magnitude_of_significand hzero]
        exact x.ofSign_self
      rw [shortest, if_pos hzero]
      exact congrArg some hself
    · have hcovers : x.interval.Covers (x.shortest .up).shown.value := by
        rw [Decimal.value_shown]
        exact (shortest_spec hx .up).1
      rw [ofDecimal_of_covers hfinite hx hcovers (inRange_shortest hfinite hx .up).shown_order]
  obtain ⟨whole, rest, htext, hwhole, -⟩ := exists_plainChars hshortest
  rw [htext] at hread
  rw [display_of_isFinite hfinite, htext]
  obtain ⟨c, cs, rfl, hc⟩ : ∃ c cs, whole = c :: cs ∧ c.isDigit := by
    obtain ⟨hdigit, rfl | ⟨c, cs, rfl, -⟩⟩ := hwhole <;>
      exact ⟨_, _, rfl, hdigit _ List.mem_cons_self⟩
  exact (read?_digits x.negative hc _).trans hread

/-- The texts of the other levels on a page. -/
theorem display_of_not_isFinite {x : Binary64} (h : x.isFinite = false) :
    x.display ∈ ["NaN", "-inf", "inf"] := by
  rw [display, h]
  cases x.isNaN <;> cases x.negative <;> simp

/-- The characters of a finite level on a page. -/
theorem mem_display {x : Binary64} (hfinite : x.isFinite = true) {c : Char}
    (hc : c ∈ x.display.toList) : c.isDigit ∨ c = '.' ∨ c = '-' := by
  obtain ⟨whole, rest, htext, hwhole, hrest⟩ := exists_plainChars (shortest_zero hfinite .up)
  have hbody : ∀ c ∈ whole ++ rest, c.isDigit ∨ c = '.' := by
    intro c hc
    rcases List.mem_append.mp hc with hc | hc
    · exact .inl (hwhole.1 c hc)
    · exact hrest c hc
  rw [display_of_isFinite hfinite, htext, String.toList_ofList] at hc
  split at hc
  · rcases List.mem_cons.mp hc with rfl | hc
    · exact .inr (.inr rfl)
    · exact (hbody c hc).imp id .inl
  · exact (hbody c hc).imp id .inl

end Binary64

/-! ### Values -/

namespace Value

variable {v : Value}

theorem mem_display (hfinite : v.isFinite = true) {c : Char} (hc : c ∈ v.display.toList) :
    c.isDigit ∨ c = '.' ∨ c = '-' := by
  cases v with
  | gauge x => exact Binary64.mem_display hfinite hc
  | counter d =>
    rw [display, Integer.text, String.toList_ofList, Integer.chars] at hc
    split at hc
    · rcases List.mem_cons.mp hc with rfl | hc
      · exact .inr (.inr rfl)
      · exact .inl (isDigit_toDigits hc)
    · exact .inl (isDigit_toDigits hc)

/-- The text of any value has only letters, digits, a point and a sign. -/
theorem isAlphanum_of_mem_display {c : Char} (hc : c ∈ v.display.toList) :
    c.isAlphanum = true ∨ c = '.' ∨ c = '-' := by
  cases hfinite : v.isFinite with
  | true =>
    refine (mem_display hfinite hc).imp_left fun hdigit => ?_
    rw [Char.isAlphanum, hdigit, Bool.or_true]
  | false =>
    obtain x | d := v
    · have hwords : ∀ text ∈ ["NaN", "-inf", "inf"],
          text.toList.all (fun c => c.isAlphanum || c = '-') = true := by
        decide
      have hword := List.all_eq_true.mp
        (hwords _ (Binary64.display_of_not_isFinite hfinite)) c hc
      rw [Bool.or_eq_true, decide_eq_true_eq] at hword
      exact hword.imp_right .inr
    · cases hfinite

/-- **A finite value comes back** from its text on a page or in an address. -/
theorem read_display (hfinite : v.isFinite = true) : Value.read v.kind v.display = .ok v := by
  have hread : Value.read? v.kind v.display = some v := by
    cases v with
    | gauge x =>
      have hx : x.isFinite = true := hfinite
      rw [kind, display, read?, Binary64.read?_display hx, Option.filter_some_pos hx]
      rfl
    | counter d =>
      rw [kind, display, read?, Integer.read64_text]
  rw [Value.read, hread]

/-- A text that is read is that of a finite value, which comes back. -/
theorem eq_of_read_display {w : Value} (h : Value.read v.kind v.display = .ok w) :
    w = v ∧ v.isFinite = true := by
  cases hfinite : v.isFinite with
  | true =>
    cases (read_display hfinite).symm.trans h
    exact ⟨rfl, rfl⟩
  | false =>
    -- the texts of levels that are no finite numbers are not read as finite numbers
    obtain x | d := v
    · have hx : x.isFinite = false := hfinite
      have hnone : ∀ text ∈ ["NaN", "-inf", "inf"], ∀ u, Value.read .gauge text ≠ .ok u := by
        intro text htext u hu
        have hread : Value.read? .gauge text = none := by
          simp only [List.mem_cons, List.not_mem_nil, or_false] at htext
          rcases htext with rfl | rfl | rfl <;> decide
        rw [Value.read, hread] at hu
        cases hu
      exact absurd h (hnone _ (Binary64.display_of_not_isFinite hx) w)
    · cases hfinite

end Value
end Telemetry
