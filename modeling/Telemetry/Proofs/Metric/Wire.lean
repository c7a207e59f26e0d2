import Telemetry.Metric.Wire
import Telemetry.Proofs.Json.Faults
import Telemetry.Proofs.Json.Layout
import Telemetry.Proofs.Json.Scaling
import Telemetry.Proofs.Metric.Draft
import Mathlib.Data.List.DropRight
import Mathlib.Data.List.Forall2

/-!
# Metrics that are written and read

A metric is written as an object of three members, in either layout, and read from it with all the
checks on drafts. Names and counters come back whatever they are. A level comes back as what its
own text reads as, which need not be the level; that is all that can be lost on the wire.

## Main definitions

* `Telemetry.Value.ReadsAs` — what the text of a value is read as
* `Telemetry.Value.Survives` — it is read as the value

## Main results

* `Telemetry.Wire.metric_writeDraft` — a written metric is read, wherever it stands
* `Telemetry.Wire.decode_encode`, `Telemetry.Wire.decodeAll_encodeList` — whole documents
-/

namespace Telemetry

open Json

variable {ε : Type}

namespace Json

/-! ### Values behind a key -/

theorem skipSpace_idem (s : Bytes) : skipSpace (skipSpace s) = skipSpace s :=
  List.dropWhile_idempotent isSpace s

theorem anyNumber_skipSpace (s : Bytes) : anyNumber (ε := ε) (skipSpace s) = anyNumber s := by
  rw [anyNumber, anyNumber, skipSpace_idem]

theorem text_blank {p : Bytes} (hp : ∀ b ∈ p, isSpace b = true) (s : Bytes) :
    text (ε := ε) (p ++ s) = text s := by
  rw [text, text, skipSpace_append hp]

theorem optional_blank {α : Type} {r : Reader ε α} {p : Bytes} (hp : ∀ b ∈ p, isSpace b = true)
    (s : Bytes) : optional r (p ++ s) = optional r s := by
  rw [optional, optional, skipSpace_append hp]

/-- A value that is not null is read behind its blanks. -/
theorem optional_of_ne_null {α : Type} {r : Reader ε α} {s : Bytes}
    (hs : ∀ s', skipSpace s ≠ 110 :: s') :
    optional r s = (r (skipSpace s)).map fun (x, s) => (some x, s) := by
  rw [optional]
  split
  · exact absurd ‹_› (hs _)
  · rfl

/-- A number is not null. -/
theorem skipSpace_ne_null {s r : Bytes} {v : Number} (h : anyNumber (ε := ε) s = .ok (v, r))
    (s' : Bytes) : skipSpace s ≠ 110 :: s' := by
  intro hs
  rw [anyNumber, hs] at h
  cases h

variable {s r : Bytes}

theorem optional_int64 {n : Int64} (h : int64 (ε := ε) s = .ok (n, r)) :
    optional (int64 (ε := ε)) s = .ok (some n, r) := by
  have hskip : int64 (ε := ε) (skipSpace s) = .ok (n, r) := by
    rw [int64, anyNumber_skipSpace]
    exact h
  cases hnumber : anyNumber (ε := ε) s with
  | error f =>
    rw [int64, hnumber] at h
    cases h
  | ok p =>
    rw [optional_of_ne_null (skipSpace_ne_null hnumber), hskip]
    rfl

theorem optional_binary64 {x : Binary64} (h : binary64 (ε := ε) s = .ok (x, r)) :
    optional (binary64 (ε := ε)) s = .ok (some x, r) := by
  have hskip : binary64 (ε := ε) (skipSpace s) = .ok (x, r) := by
    rw [binary64, anyNumber_skipSpace]
    exact h
  cases hnumber : anyNumber (ε := ε) s with
  | error f =>
    rw [binary64, hnumber] at h
    cases h
  | ok p =>
    rw [optional_of_ne_null (skipSpace_ne_null hnumber), hskip]
    rfl

end Json

/-! ### What a value is read as -/

/-- What the text of a value is read as: a counter as itself, and a level as a finite number that
its shortest digits are read as. -/
def Value.ReadsAs : Value → Value → Prop
  | .gauge x, w => ∃ y, binary64 (ε := Refusal) (number x) = .ok (y, []) ∧ y.isFinite = true ∧
      w = .gauge y
  | .counter d, w => w = .counter d

/-- A value that is read as itself: any counter, and a finite level whose text is read as it. -/
def Value.Survives (v : Value) : Prop := v.ReadsAs v

theorem Value.survives_counter (d : Int64) : (Value.counter d).Survives := rfl

theorem Value.survives_gauge_iff {x : Binary64} :
    (Value.gauge x).Survives ↔
      x.isFinite = true ∧ binary64 (ε := Refusal) (number x) = .ok (x, []) := by
  constructor
  · rintro ⟨y, hread, hfinite, h⟩
    cases h
    exact ⟨hfinite, hread⟩
  · rintro ⟨hfinite, hread⟩
    exact ⟨x, hread, hfinite, rfl⟩

theorem Value.ReadsAs.isFinite {v w : Value} (h : v.ReadsAs w) : w.isFinite = true := by
  cases v with
  | gauge x =>
    obtain ⟨y, -, hfinite, rfl⟩ := h
    exact hfinite
  | counter d =>
    cases h
    rfl

/-- What the text of a metric with a name is read as: the name and what the value is read as. -/
def Metric.ReadsAs (m m' : Metric) : Prop := m.id ≠ "" ∧ m'.id = m.id ∧ m.value.ReadsAs m'.value

theorem Metric.ReadsAs.isSound {m m' : Metric} (h : m.ReadsAs m') : m'.isSound :=
  Metric.isSound_iff.mpr ⟨by rw [h.2.1]; exact h.1, h.2.2.isFinite⟩

namespace Wire

/-! ### A metric -/

section

variable {l : Layout} {depth : ℕ}

/-- A member is read behind its key, and the next one is looked for. -/
theorem draftMembers_member {fuel n : ℕ} {first : Bool} {seen : List Member} {d d' : Draft}
    {k : String} {m : Member} (hk : Member.ofKey? k = some m) (hseen : m ∉ seen) {w t : Bytes}
    (hread : m.read (ε := ε) d (l.colon.tail ++ (w ++ t)) = .ok (d', t)) :
    draftMembers (ε := ε) fuel (n + 1) first seen d
        (comma first ++ (l.gap depth ++ (quote k ++ (l.colon ++ (w ++ t)))))
      = draftMembers fuel n false (m :: seen) d' t := by
  rw [draftMembers, nextKey_quote]
  simp only [hk, if_neg hseen, colon_layout, hread]

theorem draftMembers_brace {fuel n : ℕ} {first : Bool} {seen : List Member} {d : Draft}
    (t : Bytes) :
    draftMembers (ε := ε) fuel (n + 1) first seen d (l.gap depth ++ 125 :: t) = .ok (d, t) := by
  rw [draftMembers, nextKey_brace]
  rfl

theorem read_id (d : Draft) (x : String) (t : Bytes) :
    Member.id.read (ε := ε) d (l.colon.tail ++ (quote x ++ t)) = .ok ({ d with id := x }, t) := by
  rw [Member.read, text_blank (fun _ => isSpace_of_mem_colon), text_quote]
  rfl

theorem read_type (d : Draft) (x : String) (t : Bytes) :
    Member.type.read (ε := ε) d (l.colon.tail ++ (quote x ++ t))
      = .ok ({ d with type := x }, t) := by
  rw [Member.read, text_blank (fun _ => isSpace_of_mem_colon), text_quote]
  rfl

/-- The member that holds a value. -/
def valueMember : Value → String × Bytes
  | .gauge x => ("value", number x)
  | .counter d => ("delta", integer d)

theorem members_draft (m : Metric) :
    members m.draft = [("id", quote m.id), ("type", quote m.kind.word), valueMember m.value] := by
  obtain ⟨id, x | d⟩ := m <;> rfl

/-- The text of a value is read in front of what ends a number, and completes the draft. -/
theorem read_valueMember {v w : Value} (h : v.ReadsAs w) (id : String) {t : Bytes}
    (ht : EndsNumber t) :
    ∃ k, Member.ofKey? (valueMember v).1 = some k ∧ k ∉ [Member.type, Member.id] ∧
      k.read (ε := ε) { id := id, type := v.kind.word }
        (l.colon.tail ++ ((valueMember v).2 ++ t)) = .ok ((⟨id, w⟩ : Metric).draft, t) := by
  cases v with
  | gauge x =>
    obtain ⟨y, hread, -, rfl⟩ := h
    refine ⟨.value, rfl, by decide, ?_⟩
    have hnumber : binary64 (ε := ε) (number x) = .ok (y, []) := binary64_congr hread
    have hvalue := optional_binary64 (binary64_append ht hnumber)
    rw [Member.read, valueMember, optional_blank (fun _ => isSpace_of_mem_colon), hvalue]
    rfl
  | counter d =>
    cases h
    refine ⟨.delta, rfl, by decide, ?_⟩
    have hvalue := optional_int64 (int64_append ht (int64_integer (ε := ε) d))
    rw [Member.read, valueMember, optional_blank (fun _ => isSpace_of_mem_colon), hvalue]
    rfl

theorem draft_brace (fuel : ℕ) (s : Bytes) :
    draft (ε := ε) fuel (123 :: s) = draftMembers fuel fuel true [] {} s := by
  rw [draft, skipSpace_cons (by decide)]
  rfl

/-- A written draft is read as its name, its type and what the member of its value is read as. -/
theorem draft_writeDraft_of {m : Metric} {d : Draft} {k : Member}
    (hk : Member.ofKey? (valueMember m.value).1 = some k) (hseen : k ∉ [Member.type, Member.id])
    (hvalue : ∀ t, EndsNumber t → k.read (ε := ε) { id := m.id, type := m.value.kind.word }
      (l.colon.tail ++ ((valueMember m.value).2 ++ t)) = .ok (d, t))
    {fuel : ℕ} (hfuel : 4 ≤ fuel) :
    ReadsBack (draft (ε := ε) fuel) (writeDraft l depth m.draft) d := by
  intro t _
  obtain ⟨n, rfl⟩ := Nat.exists_eq_add_of_le' hfuel
  have hend : EndsNumber (l.gap depth ++ 125 :: t) :=
    Layout.endsNumber_gap (endsNumber_cons (by decide) t)
  rw [writeDraft, writeObject, members_draft]
  simp only [List.map_cons, List.map_nil, Layout.enclose_cons, List.flatMap_cons, List.flatMap_nil,
    List.cons_append, List.append_assoc, List.nil_append]
  rw [draft_brace]
  refine (draftMembers_member rfl (by decide) (read_id _ _ _)).trans ?_
  refine (draftMembers_member rfl (by decide) (read_type _ _ _)).trans ?_
  refine (draftMembers_member hk hseen (hvalue _ hend)).trans ?_
  exact draftMembers_brace t

/-- **A written draft is read**, with the value that its text is read as. -/
theorem draft_writeDraft {m m' : Metric} (h : m.ReadsAs m') {fuel : ℕ} (hfuel : 4 ≤ fuel) :
    ReadsBack (draft (ε := ε) fuel) (writeDraft l depth m.draft) m'.draft := by
  obtain ⟨-, hid, hread⟩ := h
  obtain ⟨k, hk, hseen, -⟩ :=
    read_valueMember (ε := ε) (l := l) hread m.id (t := []) endsNumber_nil
  refine draft_writeDraft_of hk hseen (fun t ht => ?_) hfuel
  obtain ⟨k', hk', -, hvalue⟩ := read_valueMember (ε := ε) (l := l) hread m.id ht
  cases hk.symm.trans hk'
  rw [← hid] at hvalue ⊢
  exact hvalue

/-- **A written metric is read**, wherever it stands. -/
theorem metric_writeDraft {m m' : Metric} (h : m.ReadsAs m') {fuel : ℕ} (hfuel : 4 ≤ fuel) :
    ReadsBack (metric fuel) (writeDraft l depth m.draft) m' := by
  intro t ht
  rw [metric, draft_writeDraft h hfuel t ht]
  simp only [Metric.metric?_draft h.isSound]

end

theorem startsItem_writeDraft (l : Layout) (depth : ℕ) (d : Draft) :
    StartsItem (writeDraft l depth d) :=
  ⟨123, _, rfl, by decide, by decide⟩

theorem length_writeDraft (l : Layout) (depth : ℕ) (m : Metric) :
    3 ≤ (writeDraft l depth m.draft).length := by
  rw [writeDraft, writeObject, members_draft]
  simp only [List.map_cons, List.map_nil, Layout.enclose_cons, List.flatMap_cons, List.flatMap_nil,
    List.length_append, List.length_cons, List.length_nil, quote]
  omega

/-! ### Whole documents -/

theorem four_le_length_encode (m : Metric) : 4 ≤ (encode m).length + 1 :=
  Nat.succ_le_succ (length_writeDraft .compact 0 m)

/-- **The document of a metric is read as the metric**, but for the digits of a level. -/
theorem decode_encode {m m' : Metric} (h : m.ReadsAs m') : decode (encode m) = .ok m' :=
  document_of_readsBack (metric_writeDraft h (four_le_length_encode m))

/-- Read as a draft, it is the draft of the metric. -/
theorem decodeDraft_encode {m m' : Metric} (h : m.ReadsAs m') :
    decodeDraft (encode m) = .ok m'.draft :=
  document_of_readsBack (draft_writeDraft h (four_le_length_encode m))

/-- On one line, brackets are all that a list of its own adds to a metric. -/
theorem encodeAll_singleton (m : Metric) : encodeAll [m] = 91 :: (encode m ++ [93]) := by
  obtain ⟨id, x | d⟩ := m <;> rfl

theorem length_flatMap_gap (l : Layout) (depth : ℕ) {n : ℕ} {ps : List Bytes}
    (h : ∀ p ∈ ps, n ≤ p.length) :
    n * ps.length ≤ (ps.flatMap fun q => 44 :: (l.gap depth ++ q)).length := by
  induction ps with
  | nil => exact Nat.le_refl 0
  | cons q ps ih =>
    obtain ⟨hq, hps⟩ := List.forall_mem_cons.mp h
    have hlen := ih hps
    simp only [List.flatMap_cons, List.length_append, List.length_cons, Nat.mul_add] at hlen ⊢
    omega

/-- An array is at least as long as its brackets and its items. -/
theorem length_writeArray (l : Layout) (depth : ℕ) {n : ℕ} {ps : List Bytes}
    (h : ∀ p ∈ ps, n ≤ p.length) : n * ps.length + 2 ≤ (writeArray l depth ps).length := by
  cases ps with
  | nil => exact Nat.le_refl 2
  | cons p ps =>
    obtain ⟨hp, hps⟩ := List.forall_mem_cons.mp h
    have hrest := length_flatMap_gap l (depth + 1) hps
    rw [writeArray, Layout.enclose_cons]
    simp only [List.length_cons, List.length_append, List.length_nil, Nat.mul_add] at hrest ⊢
    omega

/-- The document of a list is read by whoever reads its items. -/
theorem document_encodeList {α : Type} (l : Layout) {r : ℕ → Reader ε α} {ms : List Metric}
    {xs : List α} (h : List.Forall₂ (fun m x => ∀ fuel, 4 ≤ fuel →
      ReadsBack (r fuel) (writeDraft l 1 m.draft) x) ms xs) :
    document (fun fuel => readArray fuel (r fuel)) (encodeList l ms) = .ok xs := by
  have hlen : 3 * ms.length + 2 ≤ (encodeList l ms).length := by
    have hparts : ∀ p ∈ ms.map fun m => writeDraft l 1 m.draft, 3 ≤ p.length := by
      intro p hp
      obtain ⟨m, -, rfl⟩ := List.mem_map.mp hp
      exact length_writeDraft l 1 m
    have hlen := length_writeArray l 0 hparts
    rwa [List.length_map] at hlen
  refine document_of_readsBack fun t _ => readArray_writeArray ?_ ?_ t
  · rw [List.forall₂_map_left_iff]
    cases h with
    | nil => exact .nil
    | @cons m x ms xs hm hms =>
      have hfuel : 4 ≤ (encodeList l (m :: ms)).length + 1 := by
        rw [List.length_cons] at hlen
        omega
      exact .cons ⟨startsItem_writeDraft l 1 _, hm _ hfuel⟩
        (hms.imp fun m x hm => ⟨startsItem_writeDraft l 1 _, hm _ hfuel⟩)
  · rw [List.length_map]
    omega

/-- **The document of a list of metrics is read as the list**, in either layout. -/
theorem decodeAll_encodeList (l : Layout) {ms ms' : List Metric}
    (h : List.Forall₂ Metric.ReadsAs ms ms') : decodeAll (encodeList l ms) = .ok ms' :=
  document_encodeList l (h.imp fun _ _ hm _ hfuel => metric_writeDraft hm hfuel)

/-- Read as drafts, it is the drafts of the metrics. -/
theorem decodeDrafts_encodeList (l : Layout) {ms ms' : List Metric}
    (h : List.Forall₂ Metric.ReadsAs ms ms') :
    decodeDrafts (encodeList l ms) = .ok (ms'.map Metric.draft) := by
  refine document_encodeList l ?_
  rw [List.forall₂_map_right_iff]
  exact h.imp fun _ _ hm _ hfuel => draft_writeDraft hm hfuel

end Wire
end Telemetry
