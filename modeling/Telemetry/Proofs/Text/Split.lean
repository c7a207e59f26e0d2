import Telemetry.Text.Split
import Mathlib.Data.List.Basic

/-!
# Parts between separators

Parts that do not contain the separator are found again. So two texts are the same only if they
have the same parts in front of the first separator and behind it, and likewise at the last one.

## Main results

* `Telemetry.Text.splitChars_append_flatMap` — parts are found between separators
* `Telemetry.Text.eq_of_first`, `Telemetry.Text.eq_of_last` — texts agree before and behind them
-/

namespace Telemetry.Text

variable {sep : Char} {p q s t : List Char}

/-! ### All parts -/

theorem splitChars_ne_nil (sep : Char) (cs : List Char) : splitChars sep cs ≠ [] := by
  cases cs with
  | nil => simp [splitChars]
  | cons c cs =>
    rw [splitChars]
    split
    · simp
    · split_ifs <;> simp

theorem splitChars_cons_self (sep : Char) (cs : List Char) :
    splitChars sep (sep :: cs) = [] :: splitChars sep cs := by
  rw [splitChars]
  split
  · exact absurd ‹_› (splitChars_ne_nil sep cs)
  · rename_i p ps h
    rw [if_pos rfl, h]

/-- A character that does not separate belongs to the first part. -/
theorem splitChars_cons_of_ne {c : Char} (hc : c ≠ sep) {cs : List Char} {ps : List (List Char)}
    (h : splitChars sep cs = p :: ps) : splitChars sep (c :: cs) = (c :: p) :: ps := by
  rw [splitChars, h]
  exact if_neg hc

/-- Parts without the separator are found again behind their separators. -/
theorem splitChars_append_flatMap (hp : sep ∉ p) {ps : List (List Char)}
    (hps : ∀ q ∈ ps, sep ∉ q) : splitChars sep (p ++ ps.flatMap fun q => sep :: q) = p :: ps := by
  induction ps generalizing p with
  | nil =>
    rw [List.flatMap_nil, List.append_nil]
    induction p with
    | nil => rfl
    | cons c p ih =>
      obtain ⟨hc, hp⟩ := List.ne_and_not_mem_of_not_mem_cons hp
      exact splitChars_cons_of_ne (Ne.symm hc) (ih hp)
  | cons q ps ih =>
    obtain ⟨hq, hps⟩ := List.forall_mem_cons.mp hps
    induction p with
    | nil =>
      rw [List.flatMap_cons, List.nil_append, List.cons_append, splitChars_cons_self, ih hq hps]
    | cons c p ihp =>
      obtain ⟨hc, hp⟩ := List.ne_and_not_mem_of_not_mem_cons hp
      exact splitChars_cons_of_ne (Ne.symm hc) (ihp hp)

/-! ### One separator -/

/-- What is in front of the first separator is found again, and so is what is behind it. -/
theorem splitFirst_append (hp : sep ∉ p) (s : List Char) :
    splitFirst sep (p ++ sep :: s) = (p, some s) := by
  induction p with
  | nil => simp [splitFirst]
  | cons c p ih =>
    obtain ⟨hc, hp⟩ := List.ne_and_not_mem_of_not_mem_cons hp
    rw [List.cons_append, splitFirst, if_neg (Ne.symm hc), ih hp]

theorem eq_of_first (hp : sep ∉ p) (hq : sep ∉ q) (h : p ++ sep :: s = q ++ sep :: t) :
    p = q ∧ s = t := by
  have hsplit := congrArg (splitFirst sep) h
  rw [splitFirst_append hp, splitFirst_append hq] at hsplit
  cases hsplit
  exact ⟨rfl, rfl⟩

/-- Read backwards, the last separator is the first one. -/
theorem eq_of_last (hs : sep ∉ s) (ht : sep ∉ t) (h : p ++ sep :: s = q ++ sep :: t) :
    p = q ∧ s = t := by
  have hreverse := congrArg List.reverse h
  simp only [List.reverse_append, List.reverse_cons, List.append_assoc, List.singleton_append]
    at hreverse
  obtain ⟨hst, hpq⟩ := eq_of_first (by rwa [List.mem_reverse]) (by rwa [List.mem_reverse]) hreverse
  exact ⟨List.reverse_injective hpq, List.reverse_injective hst⟩

end Telemetry.Text
