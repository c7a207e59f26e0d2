import Telemetry.Text.Bytes
import Mathlib.Data.List.Basic

/-!
# The bytes of a text

ASCII characters are their own bytes. Texts in the order of their characters are in the order of
their bytes: the first bytes in which two characters differ tell which of them comes first, however
long they are.

## Main results

* `Telemetry.Bytes.ofText_lt_iff` — the order of texts is that of their bytes
* `Telemetry.Bytes.ofText_toLower` — small letters
-/

namespace Telemetry.Bytes

/-! ### ASCII characters -/

/-- The bytes of ASCII characters. -/
def ascii (cs : List Char) : Bytes := cs.map fun c => UInt8.ofNat c.toNat

@[simp] theorem ascii_nil : ascii [] = [] := rfl

@[simp] theorem ascii_cons (c : Char) (cs : List Char) :
    ascii (c :: cs) = UInt8.ofNat c.toNat :: ascii cs := rfl

@[simp] theorem ascii_append (cs ds : List Char) : ascii (cs ++ ds) = ascii cs ++ ascii ds :=
  List.map_append

theorem utf8EncodeChar_of_lt {c : Char} (h : c.toNat < 128) :
    String.utf8EncodeChar c = [UInt8.ofNat c.toNat] := by
  have hlow : c.val.toNat ≤ 0x7f := Nat.le_of_lt_succ h
  simp only [String.utf8EncodeChar, if_pos hlow]
  rfl

/-- No byte of a character that is not ASCII is one. -/
theorem le_of_mem_utf8EncodeChar {c : Char} (h : 128 ≤ c.toNat) {b : UInt8}
    (hb : b ∈ String.utf8EncodeChar c) : 128 ≤ b := by
  have hhigh : ¬ c.val.toNat ≤ 0x7f := Nat.not_le_of_lt h
  have hvalid := c.valid
  simp only [UInt32.isValidChar, Nat.isValidChar] at hvalid
  simp only [String.utf8EncodeChar, if_neg hhigh] at hb
  rw [UInt8.le_iff_toNat_le]
  show 128 ≤ b.toNat
  split_ifs at hb
  all_goals
    simp only [List.mem_cons, List.not_mem_nil, or_false] at hb
    rcases hb with rfl | rfl | rfl | rfl
    all_goals
      rw [UInt8.toNat_ofNat']
      omega

theorem ofText_ofList_ascii {cs : List Char} (h : ∀ c ∈ cs, c.toNat < 128) :
    ofText (String.ofList cs) = ascii cs := by
  rw [ofText_ofList, ascii, List.map_eq_flatMap]
  exact List.flatMap_congr fun c hc => utf8EncodeChar_of_lt (h c hc)

/-! ### The order of texts -/

/-- Of two characters, the one that comes first has the bytes that come first, whatever follows. -/
theorem utf8EncodeChar_append_lt {c d : Char} (h : c < d) (s t : Bytes) :
    String.utf8EncodeChar c ++ s < String.utf8EncodeChar d ++ t := by
  have hlt : c.val.toNat < d.val.toNat := h
  have hd : d.val.toNat < 0x110000 := by
    have hvalid := d.valid
    simp only [UInt32.isValidChar, Nat.isValidChar] at hvalid
    omega
  simp only [String.utf8EncodeChar]
  generalize c.val.toNat = v at hlt
  generalize d.val.toNat = w at hlt hd
  -- each byte carries one digit to the base 64, and the first digit that differs decides
  have hdigits : v / 64 / 64 / 64 < w / 64 / 64 / 64 ∨ v / 64 / 64 / 64 = w / 64 / 64 / 64 ∧
      (v / 64 / 64 % 64 < w / 64 / 64 % 64 ∨ v / 64 / 64 % 64 = w / 64 / 64 % 64 ∧
        (v / 64 % 64 < w / 64 % 64 ∨ v / 64 % 64 = w / 64 % 64 ∧ v % 64 < w % 64)) := by
    omega
  have h2 : ∀ n : ℕ, n / 4096 = n / 64 / 64 := by omega
  have h3 : ∀ n : ℕ, n / 262144 = n / 64 / 64 / 64 := by omega
  split_ifs
  all_goals
    simp only [List.cons_append, List.cons_lt_cons_iff, UInt8.lt_iff_toNat_lt, ← UInt8.toNat_inj,
      UInt8.toNat_ofNat', h2, h3]
    omega

theorem flatMap_utf8EncodeChar_lt {cs ds : List Char} (h : cs < ds) :
    cs.flatMap String.utf8EncodeChar < ds.flatMap String.utf8EncodeChar := by
  induction h with
  | nil =>
    rename_i d ds
    rw [List.flatMap_nil, List.flatMap_cons]
    cases hd : String.utf8EncodeChar d with
    | nil => exact absurd hd String.utf8EncodeChar_ne_nil
    | cons b bs => exact List.nil_lt_cons b _
  | rel hcd =>
    rw [List.flatMap_cons, List.flatMap_cons]
    exact utf8EncodeChar_append_lt hcd _ _
  | cons _ ih =>
    rw [List.flatMap_cons, List.flatMap_cons]
    exact List.append_left_lt ih

/-- **The order of texts is that of their bytes.** -/
theorem ofText_lt_iff {s t : String} : ofText s < ofText t ↔ s < t := by
  have mono : ∀ {s t : String}, s < t → ofText s < ofText t := by
    intro s t h
    rw [ofText_eq, ofText_eq]
    exact flatMap_utf8EncodeChar_lt h
  refine ⟨fun h => ?_, mono⟩
  rcases Std.lt_trichotomy s t with hst | rfl | hts
  · exact hst
  · exact absurd h (List.lt_irrefl _)
  · exact absurd (mono hts) (List.lt_asymm h)

/-! ### Small letters -/

theorem lower_of_le {b : UInt8} (h : 128 ≤ b) : lower b = b := by
  rw [lower, if_neg]
  simp only [Bool.and_eq_true, decide_eq_true_eq, UInt8.le_iff_toNat_le] at h ⊢
  intro hb
  exact absurd (Nat.le_trans h hb.2) (by decide)

theorem utf8EncodeChar_toLower (c : Char) :
    String.utf8EncodeChar c.toLower = (String.utf8EncodeChar c).map lower := by
  by_cases hc : c.toNat < 128
  · have key : ∀ n : Fin 128, String.utf8EncodeChar (Char.ofNat n).toLower
        = (String.utf8EncodeChar (Char.ofNat n)).map lower := by decide +kernel
    have h := key ⟨c.toNat, hc⟩
    rwa [Char.ofNat_toNat] at h
  · have hlarge : 128 ≤ c.toNat := Nat.le_of_not_lt hc
    have hsame : c.toLower = c := by
      refine dif_neg ?_
      rintro ⟨-, hle⟩
      have hle : c.toNat ≤ 90 := hle
      omega
    rw [hsame]
    refine ((List.map_congr_left fun b hb => ?_).trans (List.map_id _)).symm
    exact lower_of_le (le_of_mem_utf8EncodeChar hlarge hb)

/-- **A text in small letters** has the bytes of small letters. -/
theorem ofText_toLower (s : String) : ofText s.toLower = (ofText s).map lower := by
  have hmap : s.toLower = s.map Char.toLower := rfl
  rw [hmap, ofText_eq, ofText_eq, String.toList_map, List.flatMap_map, List.map_flatMap]
  exact List.flatMap_congr fun c _ => utf8EncodeChar_toLower c

end Telemetry.Bytes
