import Telemetry.Digest.Sha256
/-!
# Keyed hashes

HMAC over SHA-256: the message is hashed behind the key mixed with one pad byte, and that hash is
hashed again behind the key mixed with another. A key longer than a block is hashed first.

## Main definitions

* `Telemetry.Hmac.sha256`: the 32 bytes of the keyed hash.
-/

namespace Telemetry.Hmac

/-- The key as one block of 64 bytes. -/
def blockKey (key : Bytes) : Bytes :=
  let k := if key.length > 64 then Sha256.hash key else key
  k ++ List.replicate (64 - k.length) 0

/-- The keyed hash of a message. -/
def sha256 (key message : Bytes) : Bytes :=
  let k := blockKey key
  let inner := Sha256.hash (k.map (· ^^^ 0x36) ++ message)
  Sha256.hash (k.map (· ^^^ 0x5c) ++ inner)

/-- A keyed hash has 32 bytes. -/
@[simp] theorem length_sha256 (key message : Bytes) : (sha256 key message).length = 32 := rfl

end Telemetry.Hmac
