import Telemetry.Digest.Hmac
import Telemetry.Text.Hex
import Telemetry.Text.Trim
/-!
# Signatures

Whoever shares a key can sign a body and check a signature. A signature is the keyed hash of the
body, written in hexadecimal; blanks around it and the case of its letters do not matter.

## Main definitions

* `Telemetry.SigningKey`, `Telemetry.SigningKey.ofSecret`
* `Telemetry.SigningKey.sign`, `Telemetry.SigningKey.verify`
* `Telemetry.SignatureFault`: why a signature is no good.

## Main results

* `Telemetry.SigningKey.verify_eq_ok`: a signature is good if it spells the keyed hash.
-/

namespace Telemetry

/-- A shared key. -/
structure SigningKey where
  secret : Bytes
  deriving DecidableEq

/-- Why a signature is no good. -/
inductive SignatureFault where
  | malformed (fault : Hex.Fault)
  | mismatch
  deriving DecidableEq, Repr

/-- The wording of a fault. -/
def SignatureFault.message : SignatureFault → String
  | .malformed f => "signature is not valid hex: " ++ f.message
  | .mismatch => "signature does not match body"

namespace SigningKey

/-- The name of the header that carries a signature. -/
def header : String := "HashSHA256"

/-- A key made from a secret text. An empty one means that nothing is signed. -/
def ofSecret : Option String → Option SigningKey
  | none => none
  | some s => if s = "" then none else some ⟨Bytes.ofText s⟩

/-- How a key is shown: without its secret. -/
def display (_ : SigningKey) : String := "Signer(..)"

/-- The signature of a body. -/
def sign (k : SigningKey) (body : Bytes) : String := Hex.text (Hmac.sha256 k.secret body)

/-- Checks a signature of a body. -/
def verify (k : SigningKey) (body : Bytes) (signature : String) : Except SignatureFault Unit :=
  match Hex.decode (Bytes.ofText (Text.trim signature)) with
  | .error f => .error (.malformed f)
  | .ok mac => if mac = Hmac.sha256 k.secret body then .ok () else .error .mismatch

/-- A signature is good if it spells the keyed hash. -/
theorem verify_eq_ok {k : SigningKey} {body : Bytes} {signature : String} :
    k.verify body signature = .ok () ↔
      Hex.decode (Bytes.ofText (Text.trim signature)) = .ok (Hmac.sha256 k.secret body) := by
  unfold verify
  split
  · next h => simp [h]
  · next h => simp [h]

end SigningKey
end Telemetry
