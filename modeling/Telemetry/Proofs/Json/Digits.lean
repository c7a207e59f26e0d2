import Telemetry.Proofs.Json.Scalar

/-!
# Digits that are read

Decimal digits are read one by one into a number, as long as it stays within a bound. The digits
of a natural number start with a zero for zero only, so that the integer part of a number is never
malformed, and an integer of 64 bits comes back from its text at both ends of the range.

## Main results

* `Telemetry.Json.boundedDigits_ascii` — digits are read as the number that they make
* `Telemetry.Json.numberBody_ascii` — so is an integer part that does not start with a zero
* `Telemetry.Json.int64_integer` — an integer comes back
-/

namespace Telemetry

/-! ### The digits of a natural number -/

/-- Digits that stand before a point or alone: at least one, and no zero before another one. -/
def WholeDigits (ds : List Char) : Prop :=
  (∀ c ∈ ds, c.isDigit) ∧ (ds = ['0'] ∨ ∃ c cs, ds = c :: cs ∧ c ≠ '0')

theorem isDigit_toDigits {n : ℕ} {c : Char} (h : c ∈ Nat.toDigits 10 n) : c.isDigit :=
  Nat.isDigit_of_mem_toDigits (by decide) (by decide) h

/-- The digits of a positive number do not start with a zero. -/
theorem toDigits_eq_cons {n : ℕ} (hn : n ≠ 0) :
    ∃ c cs, Nat.toDigits 10 n = c :: cs ∧ c ≠ '0' := by
  induction n using Nat.strongRecOn with
  | ind n ih =>
    by_cases hlt : n < 10
    · refine ⟨n.digitChar, [], Nat.toDigits_of_lt_base hlt, ?_⟩
      intro h
      have hval := Nat.toNat_digitChar_of_lt_ten hlt
      rw [h] at hval
      simp at hval
      omega
    · obtain ⟨c, cs, h, hc⟩ := ih (n / 10) (by omega) (by omega)
      refine ⟨c, cs ++ [(n % 10).digitChar], ?_, hc⟩
      rw [Nat.toDigits_of_base_le (by decide) (by omega), h]
      rfl

theorem wholeDigits_toDigits (n : ℕ) : WholeDigits (Nat.toDigits 10 n) := by
  refine ⟨fun c => isDigit_toDigits, ?_⟩
  by_cases hn : n = 0
  · exact .inl (by rw [hn, Nat.toDigits_zero])
  · exact .inr (toDigits_eq_cons hn)

theorem le_ofDigitChars (ds : List Char) (acc : ℕ) : acc ≤ Nat.ofDigitChars 10 ds acc := by
  rw [Nat.ofDigitChars_eq_ofDigitChars_zero]
  have hpow : 0 < 10 ^ ds.length := Nat.pow_pos (by decide)
  exact Nat.le_add_right_of_le (Nat.le_mul_of_pos_left acc hpow)

namespace Bytes

theorem toNat_of_isDigit {c : Char} (h : c.isDigit) : 48 ≤ c.toNat ∧ c.toNat ≤ 57 := by
  simpa [Char.isDigit, UInt32.le_iff_toNat_le] using h

theorem toNat_ofNat {c : Char} (h : c.isDigit) : (UInt8.ofNat c.toNat).toNat = c.toNat := by
  have hc := toNat_of_isDigit h
  rw [UInt8.toNat_ofNat']
  exact Nat.mod_eq_of_lt (by omega)

theorem isDigit_ofNat {c : Char} (h : c.isDigit) : isDigit (UInt8.ofNat c.toNat) = true := by
  have hc := toNat_of_isDigit h
  simp only [isDigit, Bool.and_eq_true, decide_eq_true_eq, UInt8.le_iff_toNat_le, toNat_ofNat h]
  exact hc

theorem digitValue_ofNat {c : Char} (h : c.isDigit) :
    digitValue (UInt8.ofNat c.toNat) = c.toNat - 48 := by
  rw [digitValue, toNat_ofNat h]

end Bytes

namespace Json

variable {ε : Type}

/-! ### Reading digits -/

/-- Digits are read as the number that they make, if it is within the bound. -/
theorem boundedDigits_ascii {bound : ℕ} {ds : List Char} (hds : ∀ c ∈ ds, c.isDigit) {acc : ℕ}
    (hbound : Nat.ofDigitChars 10 ds acc ≤ bound) {s : Bytes} (hs : atDigit s = false)
    (count : ℕ) :
    boundedDigits bound acc count (Bytes.ascii ds ++ s)
      = (Nat.ofDigitChars 10 ds acc, count + ds.length, s) := by
  induction ds generalizing acc count with
  | nil =>
    cases s with
    | nil => rfl
    | cons b s =>
      rw [atDigit] at hs
      simp [boundedDigits, hs]
  | cons c cs ih =>
    obtain ⟨hc, hcs⟩ := List.forall_mem_cons.mp hds
    have hrest : Nat.ofDigitChars 10 cs (10 * acc + (c.toNat - 48)) ≤ bound := by
      rw [Nat.ofDigitChars_cons] at hbound
      exact hbound
    have hnext : 10 * acc + (c.toNat - 48) ≤ bound := Nat.le_trans (le_ofDigitChars cs _) hrest
    have hread : (Bytes.isDigit (UInt8.ofNat c.toNat)
        && decide (10 * acc + Bytes.digitValue (UInt8.ofNat c.toNat) ≤ bound)) = true := by
      rw [Bytes.isDigit_ofNat hc, Bytes.digitValue_ofNat hc]
      simpa using hnext
    rw [Bytes.ascii_cons, List.cons_append, boundedDigits, if_pos hread, Bytes.digitValue_ofNat hc,
      ih hcs hrest, List.length_cons, Nat.ofDigitChars_cons, Nat.add_right_comm, Nat.add_assoc]
    rfl

/-- An integer part is read as the number that its digits make. -/
theorem numberBody_ascii (negative : Bool) {ds : List Char} (hds : WholeDigits ds)
    (hbound : Nat.ofDigitChars 10 ds 0 ≤ maxSignificand) {s : Bytes} (hs : atDigit s = false) :
    numberBody (ε := ε) negative (Bytes.ascii ds ++ s)
      = numberRest negative (Nat.ofDigitChars 10 ds 0) s := by
  obtain ⟨hdigits, rfl | ⟨c, cs, rfl, hc⟩⟩ := hds
  · exact (numberBody_cons _ _).trans (by simp [hs, Nat.ofDigitChars_cons])
  · obtain ⟨hcdigit, hcs⟩ := List.forall_mem_cons.mp hdigits
    have hzero : UInt8.ofNat c.toNat ≠ 48 := by
      intro h
      have htoNat := Bytes.toNat_ofNat hcdigit
      rw [h] at htoNat
      exact hc (Char.toNat_inj.mp htoNat.symm)
    have hrest : Nat.ofDigitChars 10 cs (c.toNat - 48) ≤ maxSignificand := by
      simpa [Nat.ofDigitChars_cons] using hbound
    have hread := boundedDigits_ascii hcs hrest hs 0
    rw [Bytes.ascii_cons, List.cons_append, numberBody_cons, if_neg hzero,
      if_pos (Bytes.isDigit_ofNat hcdigit), Bytes.digitValue_ofNat hcdigit, hread]
    simp only [hs, Nat.ofDigitChars_cons]
    simp

/-! ### Integers -/

theorem anyNumber_minus (s : Bytes) : anyNumber (ε := ε) (45 :: s) = numberBody true s := by
  rw [anyNumber, skipSpace_cons (by decide)]
  rfl

theorem anyNumber_ascii {ds : List Char} (hds : WholeDigits ds) (s : Bytes) :
    anyNumber (ε := ε) (Bytes.ascii ds ++ s) = numberBody false (Bytes.ascii ds ++ s) := by
  obtain ⟨c, cs, rfl⟩ : ∃ c cs, ds = c :: cs := by
    obtain ⟨-, rfl | ⟨c, cs, rfl, -⟩⟩ := hds
    · exact ⟨'0', [], rfl⟩
    · exact ⟨c, cs, rfl⟩
  have hc : c.isDigit := hds.1 c (List.mem_cons_self ..)
  have htoNat := Bytes.toNat_of_isDigit hc
  have hspace : isSpace (UInt8.ofNat c.toNat) = false := by
    simp only [isSpace, Bool.or_eq_false_iff, beq_eq_false_iff_ne, ne_eq, ← UInt8.toNat_inj,
      Bytes.toNat_ofNat hc]
    exact ⟨⟨⟨by simp; omega, by simp; omega⟩, by simp; omega⟩, by simp; omega⟩
  have hminus : UInt8.ofNat c.toNat ≠ 45 := by
    rw [ne_eq, ← UInt8.toNat_inj, Bytes.toNat_ofNat hc]
    simp
    omega
  rw [Bytes.ascii_cons, List.cons_append, anyNumber, skipSpace_cons hspace]
  exact (if_neg hminus).trans (if_pos (Bytes.isDigit_ofNat hc))

theorem numberRest_nil (negative : Bool) (n : ℕ) :
    numberRest (ε := ε) negative n [] =
      if !negative then .ok (.natural n, [])
      else if n = 0 || (Integer.int64? (-n)).isNone then .ok (.float (Binary64.ofNat n).neg, [])
      else .ok (.negative (-n), []) := rfl

theorem integer_eq (n : Int64) : integer n = Bytes.ascii (Integer.chars n.toInt) := by
  refine Bytes.ofText_ofList_ascii fun c hc => ?_
  have hdigit : ∀ c ∈ Nat.toDigits 10 n.toInt.natAbs, c.toNat < 128 := fun c hc =>
    Nat.lt_of_le_of_lt (Bytes.toNat_of_isDigit (isDigit_toDigits hc)).2 (by decide)
  rw [Integer.chars] at hc
  split_ifs at hc
  · rcases List.mem_cons.mp hc with rfl | hc
    · decide
    · exact hdigit c hc
  · exact hdigit c hc

/-- **An integer comes back**, at both ends of the range too. -/
theorem int64_integer (n : Int64) : int64 (ε := ε) (integer n) = .ok (n, []) := by
  have hlow := n.le_toInt
  have hhigh := n.toInt_lt
  have hds := wholeDigits_toDigits n.toInt.natAbs
  have hbound : Nat.ofDigitChars 10 (Nat.toDigits 10 n.toInt.natAbs) 0 ≤ maxSignificand := by
    rw [Nat.ofDigitChars_ten_toDigits, maxSignificand, UInt64.size]
    omega
  have hread : ∀ negative : Bool,
      numberBody (ε := ε) negative (Bytes.ascii (Nat.toDigits 10 n.toInt.natAbs))
        = numberRest negative n.toInt.natAbs [] := by
    intro negative
    have h := numberBody_ascii (ε := ε) negative hds hbound (s := []) rfl
    rwa [List.append_nil, Nat.ofDigitChars_ten_toDigits] at h
  rw [integer_eq, int64, Integer.chars]
  by_cases hneg : n.toInt < 0
  · have hvalue : -(n.toInt.natAbs : Int) = n.toInt := by omega
    have hzero : n.toInt.natAbs ≠ 0 := by omega
    have hminus : anyNumber (ε := ε) (Bytes.ascii ('-' :: Nat.toDigits 10 n.toInt.natAbs))
        = .ok (.negative n.toInt, []) := by
      refine (anyNumber_minus _).trans ((hread true).trans ?_)
      rw [numberRest_nil, hvalue, Integer.int64?_toInt]
      simp [hzero]
    rw [if_pos hneg, hminus]
    exact congrArg (fun i => Except.ok (i, [])) (Int64.ofInt_toInt n)
  · have hvalue : (n.toInt.natAbs : Int) = n.toInt := by omega
    have hplain : anyNumber (ε := ε) (Bytes.ascii (Nat.toDigits 10 n.toInt.natAbs))
        = .ok (.natural n.toInt.natAbs, []) := by
      have h := anyNumber_ascii (ε := ε) hds []
      rw [List.append_nil] at h
      exact h.trans (hread false)
    rw [if_neg hneg, hplain]
    simp only [hvalue, Integer.int64?_toInt]

end Json
end Telemetry
