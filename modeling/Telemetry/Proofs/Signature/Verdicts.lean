import Telemetry.Proofs.Signature

/-!
# Verdicts on signatures

A text is a good signature of a body if it is the signature of the body, but for the case of its
letters and for blanks around it. Otherwise it is malformed if it is no hexadecimal text, and does
not match if it is one. So part of a signature is never good, and neither is a signature with more
digits behind it: the keyed hash has 32 bytes, and all of them count.

## Main results

* `Telemetry.SigningKey.verify_eq_ok_iff`, `Telemetry.SigningKey.verify_eq_malformed_iff`,
  `Telemetry.SigningKey.verify_eq_mismatch_iff` — the three verdicts
* `Telemetry.SigningKey.verify_verdicts` — all of them, and those on parts and extensions
-/

namespace Telemetry.SigningKey

open Bytes (ofText)

variable {k : SigningKey} {body : Bytes} {s : String} {f : Hex.Fault}

/-! ### The three verdicts -/

/-- **What is good** is the signature, in letters of either case. -/
theorem verify_eq_ok_iff : k.verify body s = .ok () ↔ (Text.trim s).toLower = k.sign body := by
  rw [verify_eq_ok, Hex.decode_eq_ok_iff, ← Bytes.ofText_toLower, ← Hex.ofText_text, ← sign]
  exact ⟨Bytes.ofText_injective, congrArg ofText⟩

theorem verify_eq_malformed_iff :
    k.verify body s = .error (.malformed f) ↔ Hex.decode (ofText (Text.trim s)) = .error f := by
  rw [verify]
  cases Hex.decode (ofText (Text.trim s)) with
  | error f' =>
    constructor
    · rintro ⟨⟩
      rfl
    · rintro ⟨⟩
      rfl
  | ok mac =>
    dsimp only
    split_ifs <;> simp

/-- **What does not match** is neither good nor malformed. -/
theorem verify_eq_mismatch_iff :
    k.verify body s = .error .mismatch ↔
      k.verify body s ≠ .ok () ∧ ∀ f, k.verify body s ≠ .error (.malformed f) := by
  constructor
  · intro h
    rw [h]
    exact ⟨nofun, nofun⟩
  · rintro ⟨hok, hmalformed⟩
    cases hverify : k.verify body s with
    | ok u => exact absurd hverify hok
    | error e =>
      cases e with
      | malformed f => exact absurd hverify (hmalformed f)
      | mismatch => rfl

/-! ### Digits that are not the signature -/

/-- Digits that are not the signature do not match, unless their number is odd. -/
theorem verify_of_isDigit (hdigits : ∀ x ∈ ofText s, Hex.isDigit x = true)
    (hne : s.toLower ≠ k.sign body) :
    k.verify body s
      = .error (if (ofText s).length % 2 = 1 then .malformed .oddLength else .mismatch) := by
  have htrim := Hex.trim_of_isDigit hdigits
  split_ifs with hodd
  · rw [verify_eq_malformed_iff, htrim, Hex.decode_eq_error_iff]
    exact .inl ⟨hodd, rfl⟩
  · refine verify_eq_mismatch_iff.mpr ⟨fun h => hne ?_, fun f h => ?_⟩
    · rw [← verify_eq_ok_iff.mp h, htrim]
    · rw [verify_eq_malformed_iff, htrim] at h
      rcases Hex.exists_decode_eq_error_iff.mp ⟨f, h⟩ with h | ⟨x, hx, hnone⟩
      · exact hodd h
      · rw [hdigits x hx] at hnone
        cases hnone

theorem isDigit_of_mem_sign {x : UInt8} (hx : x ∈ ofText (k.sign body)) :
    Hex.isDigit x = true ∧ Bytes.lower x = x := by
  rw [sign, Hex.ofText_text] at hx
  exact Hex.isDigit_of_mem_encode hx

/-- Part of a signature is not good. -/
theorem verify_part (hpart : s.toList <+: (k.sign body).toList) (hne : s ≠ k.sign body) :
    k.verify body s
      = .error (if (ofText s).length % 2 = 1 then .malformed .oddLength else .mismatch) := by
  have hmem : ∀ x ∈ ofText s, Hex.isDigit x = true ∧ Bytes.lower x = x := by
    intro x hx
    exact isDigit_of_mem_sign ((Bytes.ofText_isPrefix hpart).mem hx)
  refine verify_of_isDigit (fun x hx => (hmem x hx).1) fun hlower => hne ?_
  rw [← hlower]
  refine Bytes.ofText_injective ?_
  rw [Bytes.ofText_toLower]
  exact ((List.map_congr_left fun x hx => (hmem x hx).2).trans (List.map_id _)).symm

/-- A signature with more digits behind it is not good. -/
theorem verify_extension (hne : s ≠ "") (hdigits : ∀ x ∈ ofText s, Hex.isDigit x = true) :
    k.verify body (k.sign body ++ s)
      = .error (if (ofText s).length % 2 = 1 then .malformed .oddLength else .mismatch) := by
  have happend := Bytes.ofText_append (k.sign body) s
  have hlength : (ofText (k.sign body)).length = 64 := by
    rw [sign, Hex.ofText_text, Hex.length_encode, Hmac.length_sha256]
  have hpositive : 0 < (ofText s).length := by
    refine List.length_pos_iff.mpr fun hnil => hne (Bytes.ofText_injective hnil)
  have hall : ∀ x ∈ ofText (k.sign body ++ s), Hex.isDigit x = true := by
    intro x hx
    rw [happend] at hx
    rcases List.mem_append.mp hx with hx | hx
    · exact (isDigit_of_mem_sign hx).1
    · exact hdigits x hx
  have hparity : (ofText (k.sign body ++ s)).length % 2 = (ofText s).length % 2 := by
    rw [happend, List.length_append, hlength]
    omega
  rw [← hparity]
  refine verify_of_isDigit hall fun hlower => ?_
  have hsame := congrArg (fun text => (ofText text).length) hlower
  simp only [Bytes.ofText_toLower, List.length_map, happend, List.length_append] at hsame
  omega

/-! ### All together -/

/-- **A signature is accepted if it is the signature, and only then.** Blanks around it and the case
of its letters do not matter. It is malformed if it has an odd number of bytes or one that is no
digit, and does not match in all other cases. Of the signature itself no part is good, and nothing
that has more digits behind it. -/
theorem verify_verdicts (k : SigningKey) (body : Bytes) (s : String) :
    let t := Text.trim s
    let malformed := (ofText t).length % 2 = 1 ∨ ∃ x ∈ ofText t, Hex.isDigit x = false
    (k.verify body s = .ok () ↔ t.toLower = k.sign body) ∧
    ((∃ f, k.verify body s = .error (.malformed f)) ↔ malformed) ∧
    (k.verify body s = .error .mismatch ↔ t.toLower ≠ k.sign body ∧ ¬ malformed) ∧
    (s.toList <+: (k.sign body).toList → s ≠ k.sign body → k.verify body s
      = .error (if (ofText s).length % 2 = 1 then .malformed .oddLength else .mismatch)) ∧
    (s ≠ "" → (∀ x ∈ ofText s, Hex.isDigit x = true) → k.verify body (k.sign body ++ s)
      = .error (if (ofText s).length % 2 = 1 then .malformed .oddLength else .mismatch)) := by
  intro t malformed
  have hmalformed : (∃ f, k.verify body s = .error (.malformed f)) ↔ malformed := by
    simp only [verify_eq_malformed_iff]
    exact Hex.exists_decode_eq_error_iff
  refine ⟨verify_eq_ok_iff, hmalformed, ?_, verify_part, verify_extension⟩
  rw [verify_eq_mismatch_iff, ← hmalformed, not_exists, ne_eq, verify_eq_ok_iff]

end Telemetry.SigningKey
