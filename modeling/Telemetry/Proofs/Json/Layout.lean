import Telemetry.Json.Reader
import Telemetry.Proofs.Json.Scalar

/-!
# Documents in either layout

What sets the parts of a document apart is blank in both layouts, and readers skip blanks. So the
two layouts of one list of parts read alike: an array comes back from its items as soon as each of
them comes back in front of what may follow it.

## Main definitions

* `Telemetry.Json.StartsItem` — what an item may start with
* `Telemetry.Json.ReadsBack` — a written part that comes back

## Main results

* `Telemetry.Json.Layout.enclose_cons` — parts between brackets, one after the other
* `Telemetry.Json.nextKey_quote`, `Telemetry.Json.nextKey_brace` — what stands before a member
* `Telemetry.Json.readArray_writeArray` — an array comes back from its items
-/

namespace Telemetry.Json

variable {ε α : Type}

/-! ### Blanks of a layout -/

namespace Layout

variable {l : Layout} {depth : ℕ}

theorem isSpace_of_mem_gap {b : UInt8} (h : b ∈ l.gap depth) : isSpace b = true := by
  cases l with
  | compact => cases h
  | indented =>
    rcases List.mem_cons.mp h with rfl | h
    · rfl
    · rw [List.eq_of_mem_replicate h]
      rfl

theorem skipSpace_gap (s : Bytes) : skipSpace (l.gap depth ++ s) = skipSpace s :=
  skipSpace_append (fun _ => isSpace_of_mem_gap) s

/-- Parts one after the other: the first one, and the others behind commas. -/
theorem join_cons (p : Bytes) (ps : List Bytes) :
    l.join depth (p :: ps)
      = l.gap depth ++ (p ++ ps.flatMap fun q => 44 :: (l.gap depth ++ q)) := by
  induction ps generalizing p with
  | nil => rw [join, List.flatMap_nil, List.append_nil]
  | cons q ps ih =>
    rw [join, ih, List.flatMap_cons]
    simp only [List.append_assoc, List.cons_append]

theorem enclose_cons (opening closing : UInt8) (p : Bytes) (ps : List Bytes) :
    l.enclose depth opening closing (p :: ps)
      = opening :: (l.gap (depth + 1) ++ (p ++ ((ps.flatMap fun q => 44 :: (l.gap (depth + 1) ++ q))
        ++ (l.gap depth ++ [closing])))) := by
  rw [enclose, join_cons]
  simp only [List.append_assoc]

/-- A number ends where a gap and then something else follow it. -/
theorem endsNumber_gap {t : Bytes} (ht : EndsNumber t) : EndsNumber (l.gap depth ++ t) := by
  cases l with
  | compact => exact ht
  | indented => exact endsNumber_cons (by decide) _

end Layout

/-! ### Members -/

/-- The comma before a member or an item that is not the first. -/
def comma (first : Bool) : Bytes := if first then [] else [44]

variable {l : Layout} {depth : ℕ}

theorem nextKey_quote (first : Bool) (k : String) (s : Bytes) :
    nextKey (ε := ε) first (comma first ++ (l.gap depth ++ (quote k ++ s))) = .ok (some k, s) := by
  have hquote : quote k ++ s = 34 :: ((Bytes.ofText k).flatMap escapeByte ++ 34 :: s) := by
    simp [quote]
  cases first with
  | true =>
    rw [comma, if_pos rfl, List.nil_append, nextKey, Layout.skipSpace_gap, hquote,
      skipSpace_cons (by decide)]
    simp [stringRest_quote]
  | false =>
    rw [comma, if_neg (by decide), nextKey, List.cons_append, skipSpace_cons (by decide)]
    simp [Layout.skipSpace_gap, hquote, skipSpace_cons, isSpace, stringRest_quote]

theorem nextKey_brace (first : Bool) (s : Bytes) :
    nextKey (ε := ε) first (l.gap depth ++ 125 :: s) = .ok (none, 125 :: s) := by
  rw [nextKey, Layout.skipSpace_gap, skipSpace_cons (by decide)]
  rfl

theorem colon_layout (s : Bytes) : colon (ε := ε) (l.colon ++ s) = .ok (l.colon.tail ++ s) := by
  cases l <;> rfl

theorem isSpace_of_mem_colon {b : UInt8} (h : b ∈ l.colon.tail) : isSpace b = true := by
  cases l with
  | compact => cases h
  | indented =>
    rw [List.mem_singleton.mp h]
    rfl

/-! ### Arrays -/

/-- What an item starts with is neither blank nor the end of the array. -/
def StartsItem (p : Bytes) : Prop := ∃ b s, p = b :: s ∧ isSpace b = false ∧ b ≠ 93

/-- A written part comes back in front of whatever ends a number. -/
def ReadsBack (r : Reader ε α) (p : Bytes) (x : α) : Prop :=
  ∀ t, EndsNumber t → r (p ++ t) = .ok (x, t)

theorem nextItem_item (first : Bool) {p : Bytes} (hp : StartsItem p) (s : Bytes) :
    nextItem (ε := ε) first (comma first ++ (l.gap depth ++ (p ++ s))) = .ok (true, p ++ s) := by
  obtain ⟨b, p', rfl, hspace, hb⟩ := hp
  cases first with
  | true =>
    rw [comma, if_pos rfl, List.nil_append, nextItem, Layout.skipSpace_gap, List.cons_append,
      skipSpace_cons hspace]
    simp [hb]
  | false =>
    rw [comma, if_neg (by decide), nextItem, List.cons_append, skipSpace_cons (by decide)]
    simp [Layout.skipSpace_gap, skipSpace_cons hspace, hb]

theorem nextItem_bracket (first : Bool) (s : Bytes) :
    nextItem (ε := ε) first (l.gap depth ++ 93 :: s) = .ok (false, 93 :: s) := by
  rw [nextItem, Layout.skipSpace_gap, skipSpace_cons (by decide)]
  rfl

theorem items_item {r : Reader ε α} (first : Bool) {p : Bytes} {x : α} (hp : StartsItem p)
    (hread : ReadsBack r p x) {t : Bytes} (ht : EndsNumber t) (n : ℕ) (acc : List α) :
    items r (n + 1) first acc (comma first ++ (l.gap depth ++ (p ++ t)))
      = items r n false (x :: acc) t := by
  rw [items, nextItem_item first hp]
  simp only [hread t ht]

theorem items_bracket {r : Reader ε α} (l : Layout) (depth : ℕ) (first : Bool) (n : ℕ)
    (acc : List α) (t : Bytes) :
    items r (n + 1) first acc (l.gap depth ++ 93 :: t) = .ok (acc.reverse, 93 :: t) := by
  rw [items, nextItem_bracket]

/-- Behind an item comes another one or the end of the array, and either ends a number. -/
theorem endsNumber_items (ps : List Bytes) (outer : ℕ) (t : Bytes) :
    EndsNumber ((ps.flatMap fun q => 44 :: (l.gap depth ++ q)) ++ (l.gap outer ++ 93 :: t)) := by
  cases ps with
  | nil => exact Layout.endsNumber_gap (endsNumber_cons (by decide) t)
  | cons q ps => exact endsNumber_cons (by decide) _

/-- The items behind the first one. -/
theorem items_flatMap {r : Reader ε α} (outer : ℕ) (t : Bytes) {ps : List Bytes} {xs : List α}
    (h : List.Forall₂ (fun p x => StartsItem p ∧ ReadsBack r p x) ps xs) {n : ℕ}
    (hn : ps.length < n) (acc : List α) :
    items r n false acc ((ps.flatMap fun q => 44 :: (l.gap depth ++ q))
      ++ (l.gap outer ++ 93 :: t)) = .ok (acc.reverse ++ xs, 93 :: t) := by
  induction h generalizing n acc with
  | nil =>
    cases n with
    | zero => exact absurd hn (Nat.not_lt_zero _)
    | succ n => rw [List.flatMap_nil, List.nil_append, items_bracket, List.append_nil]
  | @cons p x ps xs hp hps ih =>
    cases n with
    | zero => exact absurd hn (Nat.not_lt_zero _)
    | succ n =>
      simp only [List.flatMap_cons, List.cons_append, List.append_assoc]
      refine (items_item false hp.1 hp.2 (endsNumber_items ps outer t) n acc).trans ?_
      rw [ih (Nat.lt_of_succ_lt_succ hn), List.reverse_cons, List.append_assoc]
      rfl

/-- **An array comes back from its items**, in either layout. -/
theorem readArray_writeArray {r : Reader ε α} {ps : List Bytes} {xs : List α}
    (h : List.Forall₂ (fun p x => StartsItem p ∧ ReadsBack r p x) ps xs) {fuel : ℕ}
    (hfuel : ps.length < fuel) (t : Bytes) :
    readArray fuel r (writeArray l depth ps ++ t) = .ok (xs, t) := by
  have hitems : ∀ s, items r fuel true [] s = .ok (xs, 93 :: t) →
      readArray fuel r (91 :: s) = .ok (xs, t) := by
    intro s hs
    rw [readArray, skipSpace_cons (by decide)]
    simp only [if_pos, hs, endArray, skipSpace_cons (show isSpace 93 = false by decide)]
    rfl
  cases h with
  | nil =>
    cases fuel with
    | zero => exact absurd hfuel (Nat.not_lt_zero _)
    | succ n => exact hitems _ (items_bracket .compact 0 true n [] t)
  | @cons p x ps xs hp hps =>
    cases fuel with
    | zero => exact absurd hfuel (Nat.not_lt_zero _)
    | succ n =>
      rw [writeArray, Layout.enclose_cons]
      simp only [List.cons_append, List.append_assoc, List.nil_append]
      refine hitems _ ?_
      refine (items_item true hp.1 hp.2 (endsNumber_items ps depth t) n []).trans ?_
      exact items_flatMap depth t hps (Nat.lt_of_succ_lt_succ hfuel) [x]

theorem document_of_readsBack {r : ℕ → Reader ε α} {p : Bytes} {x : α}
    (h : ReadsBack (r (p.length + 1)) p x) : document r p = .ok x := by
  have hread := h [] endsNumber_nil
  rw [List.append_nil] at hread
  rw [document, hread]
  rfl

end Telemetry.Json
