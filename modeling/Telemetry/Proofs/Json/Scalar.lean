import Telemetry.Json.Scalar
import Telemetry.Json.Writer
import Telemetry.Proofs.Text.Utf8
import Mathlib.Data.List.Basic

/-!
# Scalars inside a document

A text comes back wherever it stands in a document, since its closing quote ends it. A number has
no mark at its end: what is read to the end of the input is read in the same way in front of
anything that cannot belong to a number.

## Main definitions

* `Telemetry.Json.EndsNumber` — what may follow a number

## Main results

* `Telemetry.Json.stringRest_quote` — a text comes back, whatever its characters are
* `Telemetry.Json.anyNumber_append` — a number is read up to its end
-/

namespace Telemetry.Json

variable {ε : Type}

/-! ### Blanks -/

theorem skipSpace_cons {b : UInt8} (h : isSpace b = false) (s : Bytes) :
    skipSpace (b :: s) = b :: s :=
  List.dropWhile_cons_of_neg (by simp [h])

theorem skipSpace_append {p : Bytes} (hp : ∀ b ∈ p, isSpace b = true) (s : Bytes) :
    skipSpace (p ++ s) = skipSpace s :=
  List.dropWhile_append_of_pos hp

/-- Blanks are skipped up to the same place when something is appended. -/
theorem skipSpace_append_of_cons {s r : Bytes} {b : UInt8} (h : skipSpace s = b :: r)
    (t : Bytes) : skipSpace (s ++ t) = b :: (r ++ t) := by
  rw [skipSpace] at h
  rw [skipSpace, List.dropWhile_append, h]
  rfl

/-! ### Strings -/

theorem stringBody_quote (acc s : Bytes) :
    stringBody (ε := ε) acc (34 :: s) = .ok (acc.reverse, s) := by
  rw [stringBody.eq_def]
  rfl

theorem stringBody_plain {b : UInt8} (hquote : b ≠ 34) (hescape : b ≠ 92) (hcontrol : ¬ b < 32)
    (acc s : Bytes) : stringBody (ε := ε) acc (b :: s) = stringBody (b :: acc) s := by
  rw [stringBody.eq_def]
  simp only [if_neg hquote, if_neg hescape, if_neg hcontrol]

theorem stringBody_escape {e c : UInt8} (hletter : e ≠ 117) (hescape : escape? e = some c)
    (acc s : Bytes) : stringBody (ε := ε) acc (92 :: e :: s) = stringBody (c :: acc) s := by
  rw [stringBody.eq_def]
  simp [hletter, hescape]

theorem stringBody_unicode {h₁ h₂ h₃ h₄ : UInt8} {n : ℕ} (hhex : hex4? h₁ h₂ h₃ h₄ = some n)
    (hn : n < 0xD800) (acc s : Bytes) :
    stringBody (ε := ε) acc (92 :: 117 :: h₁ :: h₂ :: h₃ :: h₄ :: s)
      = stringBody (pushChar acc n) s := by
  have hlow : ¬ 0xDC00 ≤ n := by omega
  have hhigh : ¬ 0xD800 ≤ n := by omega
  rw [stringBody.eq_def]
  simp [hhex, hlow, hhigh]

/-- The last two digits of the number of a control character. -/
def controlDigits (b : UInt8) : Bytes :=
  [if b < 16 then 48 else 49, if b &&& 15 < 10 then 48 + (b &&& 15) else 87 + (b &&& 15)]

/-- The three forms of a byte in a string: behind a backslash by a letter of its own, by its number,
and as it is. -/
theorem escapeByte_cases (b : UInt8) :
    (∃ e, escapeByte b = [92, e] ∧ e ≠ 117 ∧ escape? e = some b) ∨
      (escapeByte b = [92, 117, 48, 48] ++ controlDigits b ∧ b < 32) ∨
      (escapeByte b = [b] ∧ b ≠ 34 ∧ b ≠ 92 ∧ ¬ b < 32) := by
  by_cases hletter : b ∈ ([34, 92, 8, 12, 10, 13, 9] : Bytes)
  · refine .inl ⟨(escapeByte b).getD 1 0, ?_⟩
    simp only [List.mem_cons, List.not_mem_nil, or_false] at hletter
    rcases hletter with rfl | rfl | rfl | rfl | rfl | rfl | rfl <;> decide
  · simp only [List.mem_cons, List.not_mem_nil, or_false, not_or] at hletter
    obtain ⟨h34, h92, h8, h12, h10, h13, h9⟩ := hletter
    have hrest : escapeByte b
        = if b < 32 then [92, 117, 48, 48] ++ controlDigits b else [b] := by
      simp only [escapeByte, if_neg h34, if_neg h92, if_neg h8, if_neg h12, if_neg h10, if_neg h13,
        if_neg h9]
      rfl
    by_cases hcontrol : b < 32
    · exact .inr (.inl ⟨by rw [hrest, if_pos hcontrol], hcontrol⟩)
    · exact .inr (.inr ⟨by rw [hrest, if_neg hcontrol], h34, h92, hcontrol⟩)

/-- The number of a control character is read as its byte. -/
theorem hex4?_controlDigits : ∀ n : Fin 32, ∃ h l, controlDigits (UInt8.ofNat n) = [h, l] ∧
    hex4? 48 48 h l = some n.val ∧ String.utf8EncodeChar (Char.ofNat n) = [UInt8.ofNat n] := by
  intro n
  refine ⟨_, _, rfl, ?_⟩
  revert n
  decide

/-- The escape of a byte is read as the byte. -/
theorem stringBody_escapeByte (acc : Bytes) (b : UInt8) (s : Bytes) :
    stringBody (ε := ε) acc (escapeByte b ++ s) = stringBody (b :: acc) s := by
  rcases escapeByte_cases b with ⟨e, h, hletter, he⟩ | ⟨h, hcontrol⟩ | ⟨h, hquote, hback, hplain⟩
  · rw [h]
    exact stringBody_escape hletter he acc s
  · have hn : b.toNat < 32 := hcontrol
    obtain ⟨hi, lo, hdigits, hhex, hchar⟩ := hex4?_controlDigits ⟨b.toNat, hn⟩
    simp only [UInt8.ofNat_toNat] at hdigits hhex hchar
    have hpush : pushChar acc b.toNat = b :: acc := by simp [pushChar, hchar]
    rw [h, hdigits]
    exact (stringBody_unicode hhex (Nat.lt_trans hn (by decide)) acc s).trans (by rw [hpush])
  · rw [h]
    exact stringBody_plain hquote hback hplain acc s

theorem stringBody_flatMap (acc b s : Bytes) :
    stringBody (ε := ε) acc (b.flatMap escapeByte ++ s) = stringBody (b.reverse ++ acc) s := by
  induction b generalizing acc with
  | nil => rfl
  | cons x b ih =>
    rw [List.flatMap_cons, List.append_assoc, stringBody_escapeByte, ih, List.reverse_cons,
      List.append_assoc]
    rfl

/-- **A text comes back**, whatever its characters are and whatever follows it. -/
theorem stringRest_quote (t : String) (s : Bytes) :
    stringRest (ε := ε) ((Bytes.ofText t).flatMap escapeByte ++ 34 :: s) = .ok (t, s) := by
  simp only [stringRest, stringBody_flatMap, stringBody_quote, List.append_nil,
    List.reverse_reverse, Bytes.text?_ofText]

theorem text_quote (t : String) (s : Bytes) : text (ε := ε) (quote t ++ s) = .ok (t, s) := by
  have hquote : quote t ++ s = 34 :: ((Bytes.ofText t).flatMap escapeByte ++ 34 :: s) := by
    simp [quote]
  rw [hquote, text, skipSpace_cons (by decide)]
  exact stringRest_quote t s

/-! ### Numbers in front of something else -/

/-- Does the byte belong to a number that it follows? -/
def isNumberByte (b : UInt8) : Bool := Bytes.isDigit b || b == 46 || b == 101 || b == 69

/-- What follows a number must not go on with it. -/
def EndsNumber (t : Bytes) : Prop := ∀ b r, t = b :: r → isNumberByte b = false

theorem endsNumber_nil : EndsNumber [] := by
  rintro b r ⟨⟩

theorem endsNumber_cons {b : UInt8} (h : isNumberByte b = false) (t : Bytes) :
    EndsNumber (b :: t) := by
  rintro c r ⟨⟩
  exact h

variable {t : Bytes}

theorem EndsNumber.atDigit (h : EndsNumber t) : atDigit t = false := by
  cases t with
  | nil => rfl
  | cons b t =>
    have hb := h b t rfl
    simp only [isNumberByte, Bool.or_eq_false_iff] at hb
    exact hb.1.1.1

theorem EndsNumber.atExponent (h : EndsNumber t) : atExponent t = false := by
  cases t with
  | nil => rfl
  | cons b t =>
    have hb := h b t rfl
    simp only [isNumberByte, Bool.or_eq_false_iff] at hb
    simp only [Json.atExponent, hb.1.2, hb.2, Bool.or_self]

theorem EndsNumber.ne_point (h : EndsNumber t) (r : Bytes) : t ≠ 46 :: r := by
  intro ht
  exact absurd (h 46 r ht) (by decide)

theorem EndsNumber.atDigit_append (h : EndsNumber t) (s : Bytes) :
    Json.atDigit (s ++ t) = Json.atDigit s := by
  cases s with
  | nil => exact h.atDigit
  | cons b s => rfl

theorem EndsNumber.atExponent_append (h : EndsNumber t) (s : Bytes) :
    Json.atExponent (s ++ t) = Json.atExponent s := by
  cases s with
  | nil => exact h.atExponent
  | cons b s => rfl

/-- Digits end where the number ends. -/
theorem EndsNumber.boundedDigits (h : EndsNumber t) (bound acc count : ℕ) (s : Bytes) :
    Json.boundedDigits bound acc count (s ++ t) =
      ((Json.boundedDigits bound acc count s).1, (Json.boundedDigits bound acc count s).2.1,
        (Json.boundedDigits bound acc count s).2.2 ++ t) := by
  induction s generalizing acc count with
  | nil =>
    have hdigit := h.atDigit
    cases t with
    | nil => rfl
    | cons b t =>
      rw [Json.atDigit] at hdigit
      simp [Json.boundedDigits, hdigit]
  | cons b s ih =>
    rw [List.cons_append, Json.boundedDigits, Json.boundedDigits]
    split_ifs
    · exact ih _ _
    · rfl

theorem EndsNumber.countDigits (h : EndsNumber t) (count : ℕ) (s : Bytes) :
    Json.countDigits count (s ++ t) =
      ((Json.countDigits count s).1, (Json.countDigits count s).2 ++ t) := by
  induction s generalizing count with
  | nil =>
    have hdigit := h.atDigit
    cases t with
    | nil => rfl
    | cons b t =>
      rw [Json.atDigit] at hdigit
      simp [Json.countDigits, hdigit]
  | cons b s ih =>
    rw [List.cons_append, Json.countDigits, Json.countDigits]
    split_ifs
    · exact ih _
    · rfl

theorem assemble_append {negative : Bool} {significand : ℕ} {e : Int} {s r : Bytes} {v : Number}
    (h : assemble (ε := ε) negative significand e s = .ok (v, r)) :
    assemble (ε := ε) negative significand e (s ++ t) = .ok (v, r ++ t) := by
  simp only [assemble] at h ⊢
  split at h
  · cases h
    rfl
  · cases h

/-- The digits of an exponent whose sign has been read. -/
def exponentDigits (negative : Bool) (significand : ℕ) (e : Int) (down : Bool) (s : Bytes) :
    Except (Fault ε) (Number × Bytes) :=
  match s with
  | [] => .error .ended
  | b :: _ =>
    if Bytes.isDigit b then
      let p := boundedDigits maxExponent 0 0 s
      if atDigit p.2.2 then
        if significand ≠ 0 && !down then .error .malformed
        else .ok (.float (Binary64.ofSign negative 0), (countDigits 0 p.2.2).2)
      else assemble negative significand (if down then e - p.1 else e + p.1) p.2.2
    else .error .malformed

section

variable {negative : Bool} {significand : ℕ} {e : Int}

theorem exponentPart_plus (s : Bytes) :
    exponentPart (ε := ε) negative significand e (43 :: s)
      = exponentDigits negative significand e false s := rfl

theorem exponentPart_minus (s : Bytes) :
    exponentPart (ε := ε) negative significand e (45 :: s)
      = exponentDigits negative significand e true s := rfl

theorem exponentPart_unsigned {b : UInt8} (hplus : b ≠ 43) (hminus : b ≠ 45) (s : Bytes) :
    exponentPart (ε := ε) negative significand e (b :: s)
      = exponentDigits negative significand e false (b :: s) := by
  rw [exponentPart.eq_def]
  split
  rename_i down s' h
  split at h
  · exact absurd (List.cons.inj ‹b :: s = _›).1 hplus
  · exact absurd (List.cons.inj ‹b :: s = _›).1 hminus
  · cases h
    rfl

variable {s r : Bytes} {v : Number}

theorem exponentDigits_append (ht : EndsNumber t) {down : Bool}
    (h : exponentDigits (ε := ε) negative significand e down s = .ok (v, r)) :
    exponentDigits (ε := ε) negative significand e down (s ++ t) = .ok (v, r ++ t) := by
  cases s with
  | nil => cases h
  | cons b s =>
    simp only [exponentDigits] at h
    simp only [List.cons_append, exponentDigits]
    rw [← List.cons_append, ht.boundedDigits]
    simp only [ht.atDigit_append, ht.countDigits]
    split_ifs at h ⊢
    · cases h
      rfl
    · exact assemble_append h
    · exact assemble_append h

/-- An exponent has its sign, or none. -/
theorem exponentPart_append (ht : EndsNumber t)
    (h : exponentPart (ε := ε) negative significand e s = .ok (v, r)) :
    exponentPart (ε := ε) negative significand e (s ++ t) = .ok (v, r ++ t) := by
  cases s with
  | nil => cases h
  | cons b s =>
    by_cases hplus : b = 43
    · subst hplus
      exact exponentDigits_append ht h
    · by_cases hminus : b = 45
      · subst hminus
        exact exponentDigits_append ht h
      · rw [exponentPart_unsigned hplus hminus] at h
        exact (exponentPart_unsigned hplus hminus _).trans (exponentDigits_append ht h)

theorem numberEnd_append (ht : EndsNumber t)
    (h : numberEnd (ε := ε) negative significand e s = .ok (v, r)) :
    numberEnd (ε := ε) negative significand e (s ++ t) = .ok (v, r ++ t) := by
  rw [numberEnd] at h
  rw [numberEnd, ht.atExponent_append]
  split_ifs at h ⊢ with hexponent
  · cases s with
    | nil => cases hexponent
    | cons b s => exact exponentPart_append ht h
  · exact assemble_append h

theorem fractionPart_append (ht : EndsNumber t)
    (h : fractionPart (ε := ε) negative significand e s = .ok (v, r)) :
    fractionPart (ε := ε) negative significand e (s ++ t) = .ok (v, r ++ t) := by
  simp only [fractionPart] at h
  simp only [fractionPart, ht.boundedDigits, ht.atDigit_append, ht.countDigits]
  split_ifs at h ⊢
  · exact numberEnd_append ht h
  · exact numberEnd_append ht h

theorem numberRest_of_ne_point (hs : ∀ r, s ≠ 46 :: r) :
    numberRest (ε := ε) negative significand s =
      if atExponent s then exponentPart negative significand 0 s.tail
      else if !negative then .ok (.natural significand, s)
      else if significand = 0 || (Integer.int64? (-significand)).isNone then
        .ok (.float (Binary64.ofNat significand).neg, s)
      else .ok (.negative (-significand), s) := by
  rw [numberRest.eq_def]
  split
  · exact absurd rfl (hs _)
  · rfl

/-- No point follows what ends the number. -/
theorem EndsNumber.append_ne_point (ht : EndsNumber t) (hs : ∀ r, s ≠ 46 :: r) (r : Bytes) :
    s ++ t ≠ 46 :: r := by
  cases s with
  | nil => exact ht.ne_point r
  | cons b s =>
    intro h
    exact hs s (by rw [(List.cons.inj h).1])

theorem numberRest_append (ht : EndsNumber t)
    (h : numberRest (ε := ε) negative significand s = .ok (v, r)) :
    numberRest (ε := ε) negative significand (s ++ t) = .ok (v, r ++ t) := by
  by_cases hpoint : ∃ s', s = 46 :: s'
  · obtain ⟨s', rfl⟩ := hpoint
    exact fractionPart_append ht h
  · have hs : ∀ r, s ≠ 46 :: r := fun r hr => hpoint ⟨r, hr⟩
    rw [numberRest_of_ne_point hs] at h
    rw [numberRest_of_ne_point (ht.append_ne_point hs), ht.atExponent_append]
    split_ifs at h ⊢ with hexponent
    · cases s with
      | nil => cases hexponent
      | cons b s => exact exponentPart_append ht h
    all_goals
      cases h
      rfl

/-- What follows an integer part of which `e` digits did not fit the significand. -/
def longRest (negative : Bool) (significand : ℕ) (e : Int) (s : Bytes) :
    Except (Fault ε) (Number × Bytes) :=
  match s with
  | 46 :: s => fractionPart negative significand e s
  | s => numberEnd negative significand e s

theorem longRest_of_ne_point (hs : ∀ r, s ≠ 46 :: r) :
    longRest (ε := ε) negative significand e s = numberEnd negative significand e s := by
  rw [longRest.eq_def]
  split
  · exact absurd rfl (hs _)
  · rfl

theorem longRest_append (ht : EndsNumber t)
    (h : longRest (ε := ε) negative significand e s = .ok (v, r)) :
    longRest (ε := ε) negative significand e (s ++ t) = .ok (v, r ++ t) := by
  by_cases hpoint : ∃ s', s = 46 :: s'
  · obtain ⟨s', rfl⟩ := hpoint
    exact fractionPart_append ht h
  · have hs : ∀ r, s ≠ 46 :: r := fun r hr => hpoint ⟨r, hr⟩
    rw [longRest_of_ne_point hs] at h
    rw [longRest_of_ne_point (ht.append_ne_point hs)]
    exact numberEnd_append ht h

theorem numberBody_cons (b : UInt8) (s : Bytes) :
    numberBody (ε := ε) negative (b :: s) =
      if b = 48 then if atDigit s then .error .malformed else numberRest negative 0 s
      else if Bytes.isDigit b then
        let p := boundedDigits maxSignificand (Bytes.digitValue b) 0 s
        if atDigit p.2.2 then
          longRest negative p.1 (countDigits 0 p.2.2).1 (countDigits 0 p.2.2).2
        else numberRest negative p.1 p.2.2
      else .error .malformed := rfl

theorem numberBody_append (ht : EndsNumber t)
    (h : numberBody (ε := ε) negative s = .ok (v, r)) :
    numberBody (ε := ε) negative (s ++ t) = .ok (v, r ++ t) := by
  cases s with
  | nil => cases h
  | cons b s =>
    rw [numberBody_cons] at h
    dsimp only at h
    rw [List.cons_append, numberBody_cons]
    simp only [ht.boundedDigits, ht.atDigit_append, ht.countDigits]
    split_ifs at h ⊢
    · exact numberRest_append ht h
    · exact longRest_append ht h
    · exact numberRest_append ht h

/-- **A number is read up to its end**, whatever follows it there. -/
theorem anyNumber_append (ht : EndsNumber t) (h : anyNumber (ε := ε) s = .ok (v, r)) :
    anyNumber (ε := ε) (s ++ t) = .ok (v, r ++ t) := by
  rw [anyNumber] at h
  cases hs : skipSpace s with
  | nil => rw [hs] at h; cases h
  | cons b s' =>
    rw [hs] at h
    rw [anyNumber, skipSpace_append_of_cons hs]
    dsimp only at h ⊢
    split_ifs at h ⊢
    · exact numberBody_append ht h
    · exact numberBody_append ht h

theorem binary64_append (ht : EndsNumber t) {x : Binary64}
    (h : binary64 (ε := ε) s = .ok (x, r)) : binary64 (ε := ε) (s ++ t) = .ok (x, r ++ t) := by
  rw [binary64] at h
  cases hnumber : anyNumber (ε := ε) s with
  | error f => rw [hnumber] at h; cases h
  | ok p =>
    obtain ⟨v, r'⟩ := p
    rw [hnumber] at h
    rw [binary64, anyNumber_append ht hnumber]
    cases v <;> cases h <;> rfl

theorem int64_append (ht : EndsNumber t) {n : Int64}
    (h : int64 (ε := ε) s = .ok (n, r)) : int64 (ε := ε) (s ++ t) = .ok (n, r ++ t) := by
  rw [int64] at h
  cases hnumber : anyNumber (ε := ε) s with
  | error f => rw [hnumber] at h; cases h
  | ok p =>
    obtain ⟨v, r'⟩ := p
    rw [hnumber] at h
    rw [int64, anyNumber_append ht hnumber]
    cases v with
    | natural n =>
      dsimp only at h ⊢
      cases hn : Integer.int64? n with
      | none => rw [hn] at h; cases h
      | some i => rw [hn] at h; cases h; rfl
    | negative n => cases h; rfl
    | float x => cases h

end

end Telemetry.Json
