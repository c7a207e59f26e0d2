import Telemetry.Text.Bytes
/-!
# Where a text may be cut

A text may be cut in front of a character and at its end, but not inside of a character. Whether a
position is one of these is seen from the byte there, so that the last of them up to any position
is found by going back byte by byte.

## Main definitions

* `Telemetry.Bytes.isBoundary`: where a text may be cut.
* `Telemetry.Bytes.lastBoundary`: the last such position up to another one.
* `Telemetry.Bytes.cut?`: what is in front of a position.

## Main results

* `Telemetry.Bytes.isBoundary_ofText_iff`: the boundaries are where a part of the characters ends.
* `Telemetry.Bytes.le_lastBoundary`: no boundary is passed over.
* `Telemetry.Bytes.exists_cut?_lastBoundary`: a text can be cut where the way back ends.
-/

namespace Telemetry.Bytes

/-- Does a byte carry on a character that began before it? -/
def continues (x : UInt8) : Bool := 128 ≤ x && x < 192

/-- Does a character begin at a position, or the text end there? -/
def isBoundary (b : Bytes) (i : Nat) : Bool :=
  match b[i]? with
  | some x => !continues x
  | none => i == b.length

/-- The boundary at which the way back from a position ends. -/
def lastBoundary (b : Bytes) : Nat → Nat
  | 0 => 0
  | i + 1 => if isBoundary b (i + 1) then i + 1 else lastBoundary b i

/-- The text in front of a position, which has to be a boundary. -/
def cut? (b : Bytes) (i : Nat) : Option String :=
  if isBoundary b i then text? (b.take i) else none

/-! ### The bytes of a character -/

theorem continues_ofNat {n : Nat} (h : n < 256) :
    continues (UInt8.ofNat n) = true ↔ 128 ≤ n ∧ n < 192 := by
  simp only [continues, Bool.and_eq_true, decide_eq_true_eq, UInt8.le_iff_toNat_le,
    UInt8.lt_iff_toNat_lt, UInt8.toNat_ofNat', Nat.mod_eq_of_lt h, UInt8.reduceToNat]

/-- All bytes of a character but the first carry it on. -/
theorem exists_utf8EncodeChar (c : Char) :
    ∃ x xs, String.utf8EncodeChar c = x :: xs ∧ continues x = false ∧
      ∀ y ∈ xs, continues y = true := by
  have hfirst : ∀ n < 256, n < 128 ∨ 192 ≤ n → continues (UInt8.ofNat n) = false := by
    intro n hlt hn
    rw [← Bool.not_eq_true, continues_ofNat hlt]
    omega
  have hnext : ∀ n, continues (UInt8.ofNat (n % 64 + 128)) = true := by
    intro n
    rw [continues_ofNat] <;> omega
  have hcons : ∀ x xs, continues x = false → (∀ y ∈ xs, continues y = true) →
      ∃ z zs, x :: xs = z :: zs ∧ continues z = false ∧ ∀ y ∈ zs, continues y = true :=
    fun x xs hx hxs => ⟨x, xs, rfl, hx, hxs⟩
  simp only [String.utf8EncodeChar]
  repeat' split
  all_goals
    refine hcons _ _ (hfirst _ (by omega) (by omega)) ?_
    simp only [List.forall_mem_cons, hnext, List.not_mem_nil, false_implies, implies_true, and_self]

/-! ### The boundaries of a text -/

theorem isBoundary_append (a b : Bytes) (i : Nat) :
    isBoundary (a ++ b) (a.length + i) = isBoundary b i := by
  rw [isBoundary, isBoundary, List.getElem?_append_right (Nat.le_add_right _ _),
    Nat.add_sub_cancel_left, List.length_append]
  cases b[i]? with
  | some x => rfl
  | none => exact Bool.eq_iff_iff.mpr (by simp)

/-- Inside of a character there is no boundary. -/
theorem isBoundary_inside (c : Char) (b : Bytes) {i : Nat} (hpos : 0 < i)
    (hlt : i < (String.utf8EncodeChar c).length) :
    isBoundary (String.utf8EncodeChar c ++ b) i = false := by
  obtain ⟨x, xs, hc, -, hnext⟩ := exists_utf8EncodeChar c
  obtain ⟨j, rfl⟩ := Nat.exists_eq_add_one_of_ne_zero (Nat.ne_of_gt hpos)
  rw [hc, List.length_cons] at hlt
  have hj : j < xs.length := Nat.lt_of_succ_lt_succ hlt
  rw [isBoundary, hc, List.cons_append, List.getElem?_cons_succ, List.getElem?_append_left hj,
    List.getElem?_eq_getElem hj]
  simp [hnext _ (List.getElem_mem hj)]

theorem isBoundary_zero (cs : List Char) :
    isBoundary (cs.flatMap String.utf8EncodeChar) 0 = true := by
  cases cs with
  | nil => rfl
  | cons c cs =>
    obtain ⟨x, xs, hc, hx, -⟩ := exists_utf8EncodeChar c
    simp [isBoundary, hc, hx]

/-- A boundary is where some of the characters end. -/
theorem isBoundary_flatMap_iff {cs : List Char} {i : Nat} :
    isBoundary (cs.flatMap String.utf8EncodeChar) i = true ↔
      ∃ ps, ps <+: cs ∧ (ps.flatMap String.utf8EncodeChar).length = i := by
  induction cs generalizing i with
  | nil =>
    simp only [List.flatMap_nil, isBoundary, List.getElem?_nil, List.length_nil, beq_iff_eq,
      List.prefix_nil, exists_eq_left]
    exact eq_comm
  | cons c cs ih =>
    constructor
    · intro h
      by_cases hzero : i = 0
      · exact ⟨[], List.nil_prefix, hzero.symm⟩
      have hle : (String.utf8EncodeChar c).length ≤ i := by
        refine Nat.le_of_not_lt fun hlt => ?_
        rw [List.flatMap_cons, isBoundary_inside c _ (Nat.pos_of_ne_zero hzero) hlt] at h
        cases h
      obtain ⟨j, rfl⟩ := Nat.exists_eq_add_of_le hle
      rw [List.flatMap_cons, isBoundary_append, ih] at h
      obtain ⟨ps, hps, rfl⟩ := h
      exact ⟨c :: ps, (List.prefix_cons_inj c).mpr hps, by
        rw [List.flatMap_cons, List.length_append]⟩
    · rintro ⟨ps, hps, rfl⟩
      cases ps with
      | nil => exact isBoundary_zero _
      | cons d ps =>
        obtain ⟨rfl, htail⟩ := List.cons_prefix_cons.mp hps
        rw [List.flatMap_cons, List.flatMap_cons, List.length_append, isBoundary_append, ih]
        exact ⟨ps, htail, rfl⟩

/-- **The boundaries of a text** are where its beginnings end. -/
theorem isBoundary_ofText_iff {s : String} {i : Nat} :
    isBoundary (ofText s) i = true ↔
      ∃ p : String, p.toList <+: s.toList ∧ (ofText p).length = i := by
  rw [ofText_eq, isBoundary_flatMap_iff]
  constructor
  · rintro ⟨ps, hps, rfl⟩
    exact ⟨String.ofList ps, by rwa [String.toList_ofList], by rw [ofText_ofList]⟩
  · rintro ⟨p, hp, rfl⟩
    exact ⟨p.toList, hp, by rw [ofText_eq]⟩

/-- A text is cut behind any of its beginnings. -/
theorem cut?_ofText_of_isPrefix {p s : String} (h : p.toList <+: s.toList) :
    cut? (ofText s) (ofText p).length = some p := by
  have hboundary := isBoundary_ofText_iff.mpr ⟨p, h, rfl⟩
  rw [cut?, if_pos hboundary, ← List.prefix_iff_eq_take.mp (ofText_isPrefix h), text?_ofText]

/-! ### The way back -/

theorem lastBoundary_le (b : Bytes) (i : Nat) : lastBoundary b i ≤ i := by
  induction i with
  | zero => exact Nat.le_refl 0
  | succ i ih =>
    rw [lastBoundary]
    split
    · exact Nat.le_refl _
    · exact Nat.le_succ_of_le ih

/-- **No boundary is passed over** on the way back. -/
theorem le_lastBoundary {b : Bytes} {i j : Nat} (hj : isBoundary b j = true) (hle : j ≤ i) :
    j ≤ lastBoundary b i := by
  induction i with
  | zero => exact hle
  | succ i ih =>
    rw [lastBoundary]
    split
    · exact hle
    · rename_i hnot
      refine ih (Nat.le_of_lt_succ (Nat.lt_of_le_of_ne hle ?_))
      rintro rfl
      exact hnot hj

theorem isBoundary_lastBoundary (s : String) (i : Nat) :
    isBoundary (ofText s) (lastBoundary (ofText s) i) = true := by
  induction i with
  | zero =>
    rw [ofText_eq]
    exact isBoundary_zero _
  | succ i ih =>
    rw [lastBoundary]
    split
    · assumption
    · exact ih

/-- **A text can be cut where the way back ends.** -/
theorem exists_cut?_lastBoundary (s : String) (i : Nat) :
    ∃ p : String, p.toList <+: s.toList ∧ (ofText p).length = lastBoundary (ofText s) i ∧
      cut? (ofText s) (lastBoundary (ofText s) i) = some p := by
  obtain ⟨p, hstart, hp⟩ := isBoundary_ofText_iff.mp (isBoundary_lastBoundary s i)
  exact ⟨p, hstart, hp, hp ▸ cut?_ofText_of_isPrefix hstart⟩

end Telemetry.Bytes
