import Telemetry.Gzip.Member
import Mathlib.Data.List.Basic

/-!
# Members of stored blocks

A compressed byte string is written as stored blocks and read by the reader for all kinds of
blocks. A stored block starts and ends with a whole byte, so that the blocks can be followed one by
one, each of them appending its bytes to the output.

## Main results

* `Telemetry.Gzip.inflateBlocks_deflateStoredBlocks` — stored blocks are read in turn
* `Telemetry.Gzip.readMember_compress` — a member spells what was compressed
* `Telemetry.Gzip.decompress?_compress`, `Telemetry.Gzip.readAll_compress` — and so it comes back
-/

namespace Telemetry.Gzip

/-! ### A stored block -/

theorem inflateStored_append (b rest : Bytes) (out : Array UInt8) :
    inflateStored b.length (b ++ rest) out = ⟨out ++ b.toArray, some rest⟩ := by
  induction b generalizing out with
  | nil => simp [inflateStored]
  | cons x b ih =>
    rw [List.length_cons, List.cons_append, inflateStored, ih]
    simp

/-- The first byte of a block says whether the block is the last one, and that it is stored. -/
theorem number?_header (last : Bool) (rest : Bytes) :
    (Bits.ofBytes ((if last then 1 else 0) :: rest)).number? 1
      = some (if last then 1 else 0, ⟨0, 7, rest⟩) := by
  cases last <;> rfl

theorem storedHeader_eq (last : Bool) (n : ℕ) :
    storedHeader last n = (if last then 1 else 0) :: (storedHeader last n).tail := by
  rw [storedHeader, List.tail_cons]

theorem number?_kind (rest : Bytes) :
    (⟨0, 7, rest⟩ : Bits).number? 2 = some (0, ⟨0, 5, rest⟩) := by
  simp [Bits.number?, Bits.bit?]

/-- The length of a block is read together with its complement. -/
theorem inflateStoredBlock_tail {b : Bytes} (hlen : b.length ≤ 65535) (rest : Bytes)
    (out : Array UInt8) (last : Bool) :
    inflateStoredBlock ((storedHeader last b.length).tail ++ (b ++ rest)) out
      = ⟨out ++ b.toArray, some rest⟩ := by
  have hlo : (UInt8.ofNat (b.length % 256)).toNat = b.length % 256 := by
    rw [UInt8.toNat_ofNat']
    exact Nat.mod_eq_of_lt (Nat.mod_lt _ (by decide))
  have hhi : (UInt8.ofNat (b.length / 256)).toNat = b.length / 256 := by
    rw [UInt8.toNat_ofNat']
    exact Nat.mod_eq_of_lt (by omega)
  have hcomplement : ∀ x : UInt8, (255 - x).toNat = 255 - x.toNat := by
    intro x
    exact UInt8.toNat_sub_of_le _ _ (UInt8.le_iff_toNat_le.mpr (Nat.le_of_lt_succ x.toNat_lt))
  simp only [storedHeader, List.tail_cons, List.cons_append, List.nil_append, inflateStoredBlock,
    hcomplement, hlo, hhi]
  rw [if_pos (by omega), show b.length % 256 + 256 * (b.length / 256) = b.length by omega]
  exact inflateStored_append b rest out

theorem inflateBlock_zero (s : Bits) (out : Array UInt8) :
    inflateBlock 0 s out = ⟨(inflateStoredBlock s.align out).output,
      (inflateStoredBlock s.align out).rest.map Bits.ofBytes⟩ := rfl

/-- A stored block is read, and then the ones behind it, if it is not the last one. -/
theorem inflateBlocks_storedHeader {b : Bytes} (hlen : b.length ≤ 65535) (rest : Bytes)
    (out : Array UInt8) (last : Bool) (n : ℕ) :
    inflateBlocks (n + 1) (Bits.ofBytes (storedHeader last b.length ++ (b ++ rest))) out
      = if last then ⟨out ++ b.toArray, some rest⟩
        else inflateBlocks n (Bits.ofBytes rest) (out ++ b.toArray) := by
  have hblock : inflateBlock 0 ⟨0, 5, (storedHeader last b.length).tail ++ (b ++ rest)⟩ out
      = ⟨out ++ b.toArray, some (Bits.ofBytes rest)⟩ := by
    rw [inflateBlock_zero, Bits.align, inflateStoredBlock_tail hlen]
    rfl
  rw [storedHeader_eq, List.cons_append, inflateBlocks, number?_header]
  dsimp only
  rw [number?_kind]
  dsimp only
  rw [hblock]
  cases last with
  | true => rfl
  | false => rfl

/-! ### Streams and members -/

/-- **Stored blocks are read in turn**, whatever follows the last one. -/
theorem inflateBlocks_deflateStoredBlocks {k : ℕ} {b : Bytes} (hfull : 65535 * k ≤ b.length)
    (hlen : b.length ≤ 65535 * (k + 1)) (rest : Bytes) (out : Array UInt8) {n : ℕ} (hn : k < n) :
    inflateBlocks n (Bits.ofBytes (deflateStoredBlocks k b ++ rest)) out
      = ⟨out ++ b.toArray, some rest⟩ := by
  induction k generalizing b out n with
  | zero =>
    obtain ⟨n, rfl⟩ := Nat.exists_eq_add_of_le' hn
    rw [deflateStoredBlocks, List.append_assoc]
    exact inflateBlocks_storedHeader (by omega) rest out true n
  | succ k ih =>
    obtain ⟨n, rfl⟩ := Nat.exists_eq_add_of_le' (Nat.lt_of_le_of_lt (Nat.zero_le _) hn)
    have htake : (b.take 65535).length = 65535 := by
      rw [List.length_take]
      omega
    have hdrop : (b.drop 65535).length = b.length - 65535 := List.length_drop
    have hblock := inflateBlocks_storedHeader (b := b.take 65535) (by omega)
      (deflateStoredBlocks k (b.drop 65535) ++ rest) out false n
    rw [htake] at hblock
    rw [deflateStoredBlocks, List.append_assoc, List.append_assoc, hblock, if_neg (by decide),
      ih (by omega) (by omega) _ (by omega)]
    simp [Array.append_assoc]

theorem length_le_deflateStoredBlocks (k : ℕ) (b : Bytes) :
    b.length ≤ (deflateStoredBlocks k b).length := by
  induction k generalizing b with
  | zero =>
    rw [deflateStoredBlocks, List.length_append]
    omega
  | succ k ih =>
    have hrest := ih (b.drop 65535)
    rw [List.length_drop] at hrest
    rw [deflateStoredBlocks, List.length_append, List.length_append, List.length_take]
    omega

theorem inflate_deflateStored (b rest : Bytes) :
    inflate (deflateStored b ++ rest) = ⟨b.toArray, some rest⟩ := by
  have hlen : b.length ≤ (deflateStored b).length := length_le_deflateStoredBlocks _ b
  have hn : (b.length - 1) / 65535 < 8 * (deflateStored b ++ rest).length + 1 := by
    rw [List.length_append]
    omega
  have hblocks := inflateBlocks_deflateStoredBlocks (b := b) (by omega) (by omega) rest #[] hn
  rwa [List.append_toArray, List.nil_append] at hblocks

theorem skipHeader?_plainHeader (checked : Bool) (rest : Bytes) :
    skipHeader? checked (plainHeader ++ rest) = some rest := by
  cases checked <;> rfl

theorem checkTrailer_append (b rest : Bytes) :
    checkTrailer b (wordBytes (Crc32.checksum b) ++ (wordBytes (UInt32.ofNat b.length) ++ rest))
      = some rest := by
  have hlen : (wordBytes (Crc32.checksum b) ++ wordBytes (UInt32.ofNat b.length)).length = 8 := rfl
  rw [checkTrailer, ← List.append_assoc, List.take_left' hlen, if_pos rfl, List.drop_left' hlen]

/-- **A member is read to its end**, and spells what was compressed. -/
theorem readMember_compress (checked : Bool) (b : Bytes) :
    readMember checked (compress b) = ⟨b, some []⟩ := by
  have htrailer := checkTrailer_append b []
  rw [List.append_nil] at htrailer
  rw [readMember, compress, skipHeader?_plainHeader]
  simp only [inflate_deflateStored, List.toList_toArray, Option.bind_some, htrailer]

theorem decompress?_compress (b : Bytes) : decompress? (compress b) = some b := by
  rw [decompress?, readMember_compress]
  rfl

/-- There is nothing behind a member that is all there is. -/
theorem readAll_compress (b : Bytes) : readAll (compress b) = (b, true) := by
  have hcons : compress b = 0x1f :: (compress b).tail := rfl
  rw [readAll, hcons, List.length_cons, readMembers, ← hcons, readMember_compress]
  · simp [readMembers]
  · simp

end Telemetry.Gzip
