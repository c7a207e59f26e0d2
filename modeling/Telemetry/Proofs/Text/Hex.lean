import Telemetry.Proofs.Text.Utf8
import Telemetry.Text.Hex
import Telemetry.Text.Trim
import Mathlib.Data.List.TakeWhile
import Mathlib.Tactic.SplitIfs

/-!
# Hexadecimal text

Hexadecimal text is read as the bytes that it spells. There is one text of small letters for each
byte string, and any other text that is read as it differs from that one in the case of letters
only. What cannot be read has an odd length or a character that is no digit, and the fault says
which of them comes first.

## Main definitions

* `Telemetry.Hex.isDigit` — the digits of either case

## Main results

* `Telemetry.Hex.decode_encode` — hexadecimal text is read as its bytes
* `Telemetry.Hex.decode_eq_ok_iff` — what is read as a byte string
* `Telemetry.Hex.decode_eq_error_iff` — what cannot be read, and why
-/

namespace Telemetry.Hex

/-- What holds of all 256 bytes holds of every byte. -/
theorem forall_byte {p : UInt8 → Prop} (h : ∀ n : Fin 256, p (UInt8.ofNat n)) (x : UInt8) :
    p x := by
  have hx := h ⟨x.toNat, x.toNat_lt⟩
  rwa [UInt8.ofNat_toNat] at hx

/-! ### Digits -/

/-- Is the byte a hexadecimal digit, of either case? -/
def isDigit (b : UInt8) : Bool :=
  Bytes.isDigit b || (97 ≤ b && b ≤ 102) || (65 ≤ b && b ≤ 70)

/-- What the tables of digits say of each byte: as a digit, and as the value of one. -/
theorem digit_table : ∀ x : UInt8,
    ((value? x = none ↔ isDigit x = false) ∧ value? (Bytes.lower x) = value? x ∧
      (value? x).all (fun v => v < 16 && digit v = Bytes.lower x) = true ∧
      (128 ≤ x → isDigit x = false)) ∧
    (x < 16 → value? (digit x) = some x ∧ isDigit (digit x) = true ∧
      Bytes.lower (digit x) = digit x ∧ 48 ≤ digit x ∧ digit x ≤ 102) :=
  forall_byte (by decide +kernel)

theorem value?_eq_none_iff {x : UInt8} : value? x = none ↔ isDigit x = false :=
  (digit_table x).1.1

theorem value?_lower (x : UInt8) : value? (Bytes.lower x) = value? x := (digit_table x).1.2.1

/-- The value of a digit is below sixteen, and its own digit is that digit as a small letter. -/
theorem digit_of_value? {x v : UInt8} (h : value? x = some v) :
    v < 16 ∧ digit v = Bytes.lower x := by
  have hall := (digit_table x).1.2.2.1
  simpa [h] using hall

theorem value?_digit {v : UInt8} (h : v < 16) : value? (digit v) = some v :=
  ((digit_table v).2 h).1

/-- **The digit of a value**, in small letters. -/
theorem value?_eq_some_iff {x v : UInt8} :
    value? x = some v ↔ v < 16 ∧ digit v = Bytes.lower x := by
  constructor
  · exact digit_of_value?
  · rintro ⟨hv, hx⟩
    rw [← value?_lower, ← hx, value?_digit hv]

/-- A byte is made of two values. -/
theorem halves : ∀ x : UInt8,
    x >>> 4 < 16 ∧ x &&& 15 < 16 ∧ (x >>> 4) <<< 4 ||| (x &&& 15) = x :=
  forall_byte (by decide +kernel)

theorem halves_of_lt {u v : UInt8} (hu : u < 16) (hv : v < 16) :
    (u <<< 4 ||| v) >>> 4 = u ∧ (u <<< 4 ||| v) &&& 15 = v := by
  have key : ∀ i j : Fin 16, let u := UInt8.ofNat i
      let v := UInt8.ofNat j
      (u <<< 4 ||| v) >>> 4 = u ∧ (u <<< 4 ||| v) &&& 15 = v := by decide +kernel
  have h := key ⟨u.toNat, hu⟩ ⟨v.toNat, hv⟩
  rwa [UInt8.ofNat_toNat, UInt8.ofNat_toNat] at h

/-! ### Reading what was written -/

theorem encode_cons (x : UInt8) (b : Bytes) :
    encode (x :: b) = digit (x >>> 4) :: digit (x &&& 15) :: encode b := rfl

theorem length_encode (b : Bytes) : (encode b).length = 2 * b.length := by
  rw [encode, List.length_flatMap]
  simp [Nat.mul_comm]

theorem exists_digit_of_mem_encode {b : Bytes} {d : UInt8} (h : d ∈ encode b) :
    ∃ v < 16, digit v = d := by
  obtain ⟨x, -, hd⟩ := List.mem_flatMap.mp h
  obtain ⟨hhigh, hlow, -⟩ := halves x
  simp only [List.mem_cons, List.not_mem_nil, or_false] at hd
  rcases hd with rfl | rfl
  · exact ⟨_, hhigh, rfl⟩
  · exact ⟨_, hlow, rfl⟩

theorem mem_encode {b : Bytes} {d : UInt8} (h : d ∈ encode b) : 48 ≤ d ∧ d ≤ 102 := by
  obtain ⟨v, hv, rfl⟩ := exists_digit_of_mem_encode h
  exact ((digit_table v).2 hv).2.2.2

/-- What is written consists of digits, and its letters are small. -/
theorem isDigit_of_mem_encode {b : Bytes} {d : UInt8} (h : d ∈ encode b) :
    isDigit d = true ∧ Bytes.lower d = d := by
  obtain ⟨v, hv, rfl⟩ := exists_digit_of_mem_encode h
  obtain ⟨-, hdigit, hlower, -⟩ := (digit_table v).2 hv
  exact ⟨hdigit, hlower⟩

/-- A pair of digits is read as the byte that they make. -/
theorem decodePairs_cons_eq_ok_iff {index : ℕ} {x y z : UInt8} {t b : Bytes} :
    decodePairs index (x :: y :: t) = .ok (z :: b) ↔
      value? x = some (z >>> 4) ∧ value? y = some (z &&& 15) ∧
        decodePairs (index + 2) t = .ok b := by
  rw [decodePairs]
  cases hx : value? x with
  | none => exact iff_of_false nofun nofun
  | some u =>
    cases hy : value? y with
    | none => exact iff_of_false nofun (fun h => nomatch h.2.1)
    | some v =>
      obtain ⟨hu, hv⟩ := halves_of_lt (digit_of_value? hx).1 (digit_of_value? hy).1
      cases decodePairs (index + 2) t with
      | error f => exact iff_of_false nofun (fun h => nomatch h.2.2)
      | ok b' =>
        constructor
        · rintro ⟨⟩
          exact ⟨congrArg some hu.symm, congrArg some hv.symm, rfl⟩
        · rintro ⟨⟨⟩, ⟨⟩, ⟨⟩⟩
          obtain ⟨-, -, hz⟩ := halves z
          exact congrArg (fun byte => Except.ok (byte :: b)) hz

/-- What is read as a byte string is its text, but for the case of letters. -/
theorem decodePairs_eq_ok_iff : ∀ {index : ℕ} {t b : Bytes},
    decodePairs index t = .ok b ↔ t.map Bytes.lower = encode b
  | _, [], [] => iff_of_true rfl rfl
  | _, [], _ :: _ => iff_of_false nofun nofun
  | _, [_], [] => iff_of_false nofun nofun
  | _, [_], _ :: _ => iff_of_false nofun (by simp [encode_cons])
  | index, x :: y :: t, [] => by
    refine iff_of_false ?_ nofun
    rw [decodePairs]
    intro h
    split at h
    · cases h
    · cases h
    · cases hrest : decodePairs (index + 2) t <;> rw [hrest] at h <;> cases h
  | index, x :: y :: t, z :: b => by
    obtain ⟨hhigh, hlow, -⟩ := halves z
    rw [decodePairs_cons_eq_ok_iff, decodePairs_eq_ok_iff, value?_eq_some_iff, value?_eq_some_iff,
      encode_cons, List.map_cons, List.map_cons, List.cons.injEq, List.cons.injEq]
    constructor
    · rintro ⟨⟨-, hx⟩, ⟨-, hy⟩, ht⟩
      exact ⟨hx.symm, hy.symm, ht⟩
    · rintro ⟨hx, hy, ht⟩
      exact ⟨⟨hhigh, hx.symm⟩, ⟨hlow, hy.symm⟩, ht⟩

/-- **What is read as a byte string** is its text, but for the case of letters. -/
theorem decode_eq_ok_iff {t b : Bytes} : decode t = .ok b ↔ t.map Bytes.lower = encode b := by
  rw [decode]
  split_ifs with hodd
  · refine iff_of_false nofun fun h => ?_
    have hlength := congrArg List.length h
    rw [List.length_map, length_encode] at hlength
    omega
  · exact decodePairs_eq_ok_iff

/-- **Hexadecimal text is read as its bytes.** -/
theorem decode_encode (b : Bytes) : decode (encode b) = .ok b :=
  decode_eq_ok_iff.mpr ((List.map_congr_left fun _ hd => (isDigit_of_mem_encode hd).2).trans
    (List.map_id _))

/-! ### What cannot be read -/

/-- Pairs of bytes cannot be read if one of them is no digit. The fault names the first of these. -/
theorem decodePairs_eq_error_iff : ∀ {index : ℕ} {t : Bytes} {f : Fault}, t.length % 2 = 0 →
    (decodePairs index t = .error f ↔ ∃ c rest, t.dropWhile isDigit = c :: rest ∧
      f = .badDigit c (index + (t.takeWhile isDigit).length))
  | _, [], _, _ => iff_of_false nofun (by simp)
  | _, [_], _, heven => absurd heven Nat.one_ne_zero
  | index, x :: y :: t, f, heven => by
    rw [decodePairs]
    cases hx : value? x with
    | none =>
      rw [List.dropWhile_cons, List.takeWhile_cons, value?_eq_none_iff.mp hx]
      constructor
      · rintro ⟨⟩
        exact ⟨x, y :: t, rfl, rfl⟩
      · rintro ⟨c, rest, ⟨⟩, rfl⟩
        rfl
    | some u =>
      have hdigit : isDigit x = true := by
        rw [← Bool.not_eq_false, ← value?_eq_none_iff, hx]
        nofun
      rw [List.dropWhile_cons_of_pos hdigit, List.takeWhile_cons_of_pos hdigit]
      cases hy : value? y with
      | none =>
        rw [List.dropWhile_cons, List.takeWhile_cons, value?_eq_none_iff.mp hy]
        constructor
        · rintro ⟨⟩
          exact ⟨y, t, rfl, rfl⟩
        · rintro ⟨c, rest, ⟨⟩, rfl⟩
          rfl
      | some v =>
        have hdigit' : isDigit y = true := by
          rw [← Bool.not_eq_false, ← value?_eq_none_iff, hy]
          nofun
        have hlength : t.length % 2 = 0 := by
          rw [List.length_cons, List.length_cons] at heven
          omega
        have hrest := @decodePairs_eq_error_iff (index + 2) t f hlength
        rw [List.dropWhile_cons_of_pos hdigit', List.takeWhile_cons_of_pos hdigit']
        rw [Nat.add_assoc, Nat.add_comm 2] at hrest
        refine Iff.trans ?_ hrest
        cases decodePairs (index + 2) t with
        | error f' => exact Iff.rfl
        | ok b => exact iff_of_false nofun nofun

/-- **What cannot be read** has an odd length, or else a byte that is no digit. -/
theorem decode_eq_error_iff {t : Bytes} {f : Fault} :
    decode t = .error f ↔ (t.length % 2 = 1 ∧ f = .oddLength) ∨
      (t.length % 2 = 0 ∧ ∃ c rest, t.dropWhile isDigit = c :: rest ∧
        f = .badDigit c (t.takeWhile isDigit).length) := by
  rw [decode]
  split_ifs with hodd
  · constructor
    · rintro ⟨⟩
      exact .inl ⟨hodd, rfl⟩
    · rintro (⟨-, rfl⟩ | ⟨heven, -⟩)
      · rfl
      · omega
  · have heven : t.length % 2 = 0 := by omega
    rw [decodePairs_eq_error_iff heven, Nat.zero_add]
    constructor
    · exact fun h => .inr ⟨heven, h⟩
    · rintro (⟨hodd', -⟩ | ⟨-, h⟩)
      · exact absurd hodd' hodd
      · exact h

/-- Whether a text can be read does not depend on which fault it would have. -/
theorem exists_decode_eq_error_iff {t : Bytes} :
    (∃ f, decode t = .error f) ↔ t.length % 2 = 1 ∨ ∃ x ∈ t, isDigit x = false := by
  have hbad : (∃ x ∈ t, isDigit x = false) ↔ ∃ c rest, t.dropWhile isDigit = c :: rest := by
    rw [← List.ne_nil_iff_exists_cons, ne_eq, List.dropWhile_eq_nil_iff]
    simp
  simp only [decode_eq_error_iff, hbad]
  constructor
  · rintro ⟨f, ⟨hodd, -⟩ | ⟨-, c, rest, hdrop, -⟩⟩
    · exact .inl hodd
    · exact .inr ⟨c, rest, hdrop⟩
  · intro h
    by_cases hodd : t.length % 2 = 1
    · exact ⟨_, .inl ⟨hodd, rfl⟩⟩
    · obtain ⟨c, rest, hdrop⟩ := h.resolve_left hodd
      exact ⟨_, .inr ⟨by omega, c, rest, hdrop, rfl⟩⟩

/-! ### Texts -/

theorem toNat_of_mem_encode {b : Bytes} {d : UInt8} (h : d ∈ encode b) :
    48 ≤ (Char.ofNat d.toNat).toNat ∧ (Char.ofNat d.toNat).toNat ≤ 102 ∧
      UInt8.ofNat (Char.ofNat d.toNat).toNat = d := by
  obtain ⟨hlow, hhigh⟩ := mem_encode h
  rw [UInt8.le_iff_toNat_le] at hlow hhigh
  have hvalid : d.toNat.isValidChar := .inl (Nat.lt_of_le_of_lt hhigh (by decide))
  have hchar : (Char.ofNat d.toNat).toNat = d.toNat := by
    rw [Char.ofNat, dif_pos hvalid]
    rfl
  rw [hchar, UInt8.ofNat_toNat]
  exact ⟨hlow, hhigh, rfl⟩

theorem ofText_text (b : Bytes) : Bytes.ofText (text b) = encode b := by
  rw [text, Bytes.ofText_ofList_ascii, Bytes.ascii, List.map_map]
  · refine (List.map_congr_left fun d hd => ?_).trans (List.map_id _)
    exact (toNat_of_mem_encode hd).2.2
  · intro c hc
    obtain ⟨d, hd, rfl⟩ := List.mem_map.mp hc
    exact Nat.lt_of_le_of_lt (toNat_of_mem_encode hd).2.1 (by decide)

/-- **Digits are not trimmed.** -/
theorem trim_of_isDigit {s : String} (h : ∀ x ∈ Bytes.ofText s, isDigit x = true) :
    Text.trim s = s := by
  have hascii : ∀ n : Fin 128, Text.isBlank (Char.ofNat n) = true →
      isDigit (UInt8.ofNat n) = false := by decide +kernel
  have hblank : ∀ c ∈ s.toList, Text.isBlank c = false := by
    intro c hc
    have hbytes : ∀ x ∈ String.utf8EncodeChar c, isDigit x = true := by
      intro x hx
      rw [Bytes.ofText_eq] at h
      exact h x (List.mem_flatMap_of_mem hc hx)
    by_contra hblank
    rw [Bool.not_eq_false] at hblank
    by_cases hsmall : c.toNat < 128
    · rw [Bytes.utf8EncodeChar_of_lt hsmall, List.forall_mem_singleton] at hbytes
      have hnone := hascii ⟨c.toNat, hsmall⟩ (by rw [Char.ofNat_toNat]; exact hblank)
      rw [hbytes] at hnone
      cases hnone
    · obtain ⟨x, hx⟩ := List.exists_mem_of_ne_nil _ (String.utf8EncodeChar_ne_nil (c := c))
      have hlarge := Bytes.le_of_mem_utf8EncodeChar (Nat.le_of_not_lt hsmall) hx
      have hnone := (digit_table x).1.2.2.2 hlarge
      rw [hbytes x hx] at hnone
      cases hnone
  have hdrop : ∀ cs : List Char, (∀ c ∈ cs, Text.isBlank c = false) →
      cs.dropWhile Text.isBlank = cs := by
    rintro (_ | ⟨c, cs⟩) hcs
    · rfl
    · exact List.dropWhile_cons_of_neg (by simp [hcs c List.mem_cons_self])
  rw [Text.trim, Text.trimChars, hdrop _ hblank,
    hdrop _ fun c hc => hblank c (List.mem_reverse.mp hc), List.reverse_reverse,
    String.ofList_toList]

theorem trim_text (b : Bytes) : Text.trim (text b) = text b := by
  refine trim_of_isDigit fun x hx => ?_
  rw [ofText_text] at hx
  exact (isDigit_of_mem_encode hx).1

end Telemetry.Hex
