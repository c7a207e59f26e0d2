import Telemetry.Http.Message
import Telemetry.Proofs.Text.Hex
import Telemetry.Signature

/-!
# Signatures that are checked

A signature is hexadecimal text, which has no blanks and is read as the bytes that it spells. So
whoever has the key that a body was signed with finds its signature to be good.

## Main results

* `Telemetry.SigningKey.verify_sign`, `Telemetry.SigningKey.verify_sign_of` — the signature of a
  body is good for the key it was made with, and for no key with another hash
* `Telemetry.SigningKey.valueText?_sign` — it comes back from a header
-/

namespace Telemetry

/-! ### Signatures -/

namespace SigningKey

theorem headerName_header : Http.headerName header = "hashsha256" := rfl

/-- A signature that was made with one key and is checked with another is good if the two keys give
the body the same hash. -/
theorem verify_sign_of (k k' : SigningKey) (body : Bytes) :
    k.verify body (k'.sign body)
      = if Hmac.sha256 k'.secret body = Hmac.sha256 k.secret body then .ok ()
        else .error .mismatch := by
  rw [verify, sign, Hex.trim_text, Hex.ofText_text, Hex.decode_encode]

/-- **The signature of a body is good** for whoever has the key. -/
theorem verify_sign (k : SigningKey) (body : Bytes) : k.verify body (k.sign body) = .ok () := by
  rw [verify_sign_of, if_pos rfl]

theorem sign_ne_empty (k : SigningKey) (body : Bytes) : k.sign body ≠ "" := by
  intro h
  have hlength := congrArg (fun text => (Bytes.ofText text).length) h
  rw [sign] at hlength
  rw [Hex.ofText_text, Hex.length_encode, Hmac.length_sha256] at hlength
  exact absurd hlength (by decide)

/-- The keys that secrets make: there is none without a secret, and none if it is empty. -/
theorem ofSecret_eq_some {secret? : Option String} {k : SigningKey} :
    ofSecret secret? = some k ↔
      ∃ secret, secret? = some secret ∧ secret ≠ "" ∧ k = ⟨Bytes.ofText secret⟩ := by
  cases secret? with
  | none => exact iff_of_false nofun nofun
  | some secret =>
    rw [ofSecret]
    split_ifs with hempty
    · refine iff_of_false nofun ?_
      rintro ⟨_, ⟨⟩, hne, -⟩
      exact hne hempty
    · constructor
      · rintro ⟨⟩
        exact ⟨secret, rfl, hempty, rfl⟩
      · rintro ⟨_, ⟨⟩, -, rfl⟩
        rfl

/-- A signature is the text of the header that carries it. -/
theorem valueText?_sign (k : SigningKey) (body : Bytes) :
    Http.valueText? (Bytes.ofText (k.sign body)) = some (k.sign body) := by
  rw [Http.valueText?, if_pos, Bytes.text?_ofText]
  rw [List.all_eq_true]
  intro d hd
  rw [sign, Hex.ofText_text] at hd
  obtain ⟨hlow, hhigh⟩ := Hex.mem_encode hd
  rw [UInt8.le_iff_toNat_le] at hlow hhigh
  simp only [Http.isTextByte, Bool.or_eq_true, Bool.and_eq_true, decide_eq_true_eq,
    UInt8.le_iff_toNat_le, UInt8.lt_iff_toNat_lt]
  left
  constructor
  · exact Nat.le_trans (by decide) hlow
  · exact Nat.lt_of_le_of_lt hhigh (by decide)

end SigningKey
end Telemetry
