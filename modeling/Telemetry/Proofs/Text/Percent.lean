import Telemetry.Proofs.Text.Utf8
import Telemetry.Text.Percent

/-!
# Encoded texts

A text whose percent signs are encoded with the rest comes back when it is decoded, whatever its
characters are. What is encoded consists of visible ASCII characters, none of them reserved.

## Main results

* `Telemetry.Percent.decode_encode` — an encoded text is decoded
* `Telemetry.Percent.not_mem_encode` — no reserved character is left in it
-/

namespace Telemetry.Percent

/-! ### Bytes -/

theorem decode_cons {a : UInt8} (ha : a ≠ 37) (s : Bytes) : decode (a :: s) = a :: decode s := by
  match s with
  | [] => rfl
  | [b] => rfl
  | b :: c :: s => rw [decode, if_neg ha]

theorem value?_digit : ∀ n : Fin 16,
    Hex.value? (UInt8.ofNat (digit n).toNat) = some (UInt8.ofNat n) := by
  decide

theorem toNat_digit_lt : ∀ n : Fin 16, (digit n).toNat < 128 := by
  decide

/-- Two digits make up their byte. -/
theorem shift_or : ∀ n : Fin 256,
    UInt8.ofNat (n / 16) <<< 4 ||| UInt8.ofNat (n % 16) = UInt8.ofNat n := by
  decide +kernel

theorem decode_encodeByte (b : UInt8) (s : Bytes) :
    decode (Bytes.ascii (encodeByte b) ++ s) = b :: decode s := by
  have hb := b.toNat_lt
  have hhigh := value?_digit ⟨b.toNat / 16, by omega⟩
  have hlow := value?_digit ⟨b.toNat % 16, by omega⟩
  have hbyte := shift_or ⟨b.toNat, hb⟩
  rw [UInt8.ofNat_toNat] at hbyte
  simp only [encodeByte, Bytes.ascii_cons, Bytes.ascii_nil, List.cons_append, List.nil_append]
  rw [decode, if_pos (by rfl), hhigh, hlow]
  simp only [hbyte]

theorem decode_encodeBytes (b s : Bytes) :
    decode (Bytes.ascii (b.flatMap encodeByte) ++ s) = b ++ decode s := by
  induction b with
  | nil => rfl
  | cons x b ih =>
    rw [List.flatMap_cons, Bytes.ascii_append, List.append_assoc, decode_encodeByte, ih,
      List.cons_append]

/-! ### Characters -/

variable {reserved : List Char} {c d : Char}

/-- The two forms of a character. -/
theorem encodeChar_cases (reserved : List Char) (c : Char) :
    encodeChar reserved c = (String.utf8EncodeChar c).flatMap encodeByte ∨
      (encodeChar reserved c = [c] ∧ 32 ≤ c.toNat ∧ c.toNat ≤ 126 ∧ c ∉ reserved) := by
  rw [encodeChar]
  split
  · left
    rw [Bytes.ofText_ofList]
    simp
  · rename_i h
    simp only [Bool.or_eq_true, decide_eq_true_eq, List.contains_iff_mem, not_or] at h
    exact .inr ⟨rfl, by omega, by omega, h.2⟩

/-- An encoded byte is a percent sign and two digits. -/
theorem mem_encodeByte {b : UInt8} (h : c ∈ encodeByte b) :
    c = '%' ∨ ∃ n : Fin 16, c = digit n := by
  simp only [encodeByte, List.mem_cons, List.not_mem_nil, or_false] at h
  have hb := b.toNat_lt
  rcases h with rfl | rfl | rfl
  · exact .inl rfl
  · exact .inr ⟨⟨b.toNat / 16, by omega⟩, rfl⟩
  · exact .inr ⟨⟨b.toNat % 16, by omega⟩, rfl⟩

/-- What is encoded consists of percent signs, digits and what is not reserved. -/
theorem mem_encodeChar (h : d ∈ encodeChar reserved c) :
    d = '%' ∨ (∃ n : Fin 16, d = digit n) ∨
      (d = c ∧ 32 ≤ d.toNat ∧ d.toNat ≤ 126 ∧ d ∉ reserved) := by
  rcases encodeChar_cases reserved c with hc | ⟨hc, hvisible⟩
  · rw [hc, List.mem_flatMap] at h
    obtain ⟨b, -, hd⟩ := h
    rcases mem_encodeByte hd with hd | hd
    · exact .inl hd
    · exact .inr (.inl hd)
  · rw [hc, List.mem_singleton] at h
    subst h
    exact .inr (.inr ⟨rfl, hvisible⟩)

/-- **No reserved character is left**, unless it is one that encoded bytes are written with. -/
theorem not_mem_encode {cs : List Char} (hd : d ∈ reserved) (hsign : d ≠ '%')
    (hdigit : ∀ n : Fin 16, d ≠ digit n) : d ∉ (encode reserved cs).toList := by
  rw [encode, String.toList_ofList, List.mem_flatMap]
  rintro ⟨c, -, hc⟩
  rcases mem_encodeChar hc with h | ⟨n, h⟩ | ⟨-, -, -, h⟩
  · exact hsign h
  · exact hdigit n h
  · exact h hd

theorem isAscii_encode {cs : List Char} :
    ∀ d ∈ cs.flatMap (encodeChar reserved), d.toNat < 128 := by
  intro d hd
  obtain ⟨c, -, hc⟩ := List.mem_flatMap.mp hd
  rcases mem_encodeChar hc with rfl | ⟨n, rfl⟩ | ⟨-, -, h, -⟩
  · decide
  · exact toNat_digit_lt n
  · omega

/-- A character comes back, with what follows it. -/
theorem decode_encodeChar (hsign : '%' ∈ reserved) (c : Char) (s : Bytes) :
    decode (Bytes.ascii (encodeChar reserved c) ++ s) = String.utf8EncodeChar c ++ decode s := by
  rcases encodeChar_cases reserved c with hc | ⟨hc, hlow, hhigh, hfree⟩
  · rw [hc, decode_encodeBytes]
  · have hne : UInt8.ofNat c.toNat ≠ 37 := by
      intro h
      have hnat : (UInt8.ofNat c.toNat).toNat = 37 := by rw [h]; rfl
      rw [UInt8.toNat_ofNat', Nat.mod_eq_of_lt (by omega)] at hnat
      have hc : c = '%' := Char.toNat_inj.mp hnat
      exact hfree (hc ▸ hsign)
    have hbytes := Bytes.utf8EncodeChar_of_lt (c := c) (by omega)
    rw [hc, hbytes, Bytes.ascii_cons, Bytes.ascii_nil, List.cons_append, List.nil_append,
      decode_cons hne, List.cons_append, List.nil_append]

/-! ### Texts -/

/-- **An encoded text is decoded**, if percent signs are encoded too. -/
theorem decode_encode (hsign : '%' ∈ reserved) (cs : List Char) :
    decode (Bytes.ofText (encode reserved cs)) = Bytes.ofText (String.ofList cs) := by
  rw [encode, Bytes.ofText_ofList_ascii isAscii_encode, Bytes.ofText_ofList]
  have key : ∀ s, decode (Bytes.ascii (cs.flatMap (encodeChar reserved)) ++ s)
      = cs.flatMap String.utf8EncodeChar ++ decode s := by
    intro s
    induction cs with
    | nil => rfl
    | cons c cs ih =>
      rw [List.flatMap_cons, Bytes.ascii_append, List.append_assoc, decode_encodeChar hsign, ih,
        List.flatMap_cons, List.append_assoc]
  have h := key []
  rwa [List.append_nil, show decode [] = [] from rfl, List.append_nil] at h

theorem decodeText?_encode (hsign : '%' ∈ reserved) (s : String) :
    decodeText? (encode reserved s.toList) = some s := by
  rw [decodeText?, decode_encode hsign, String.ofList_toList, Bytes.text?_ofText]

theorem encode_injective (hsign : '%' ∈ reserved) {s t : String}
    (h : encode reserved s.toList = encode reserved t.toList) : s = t := by
  have hs := decodeText?_encode hsign s
  rw [h, decodeText?_encode hsign] at hs
  exact (Option.some.inj hs).symm

end Telemetry.Percent
