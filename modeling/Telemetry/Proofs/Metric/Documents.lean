import Telemetry.Proofs.Metric.Wire

/-!
# What documents are taken for

Any metrics can be written as a document, those without a name and those with a level that is no
finite number too; such a level is written as null. The document is read as drafts all the same,
and it is the checks that refuse it. What passes the checks is what the metrics are read as: names
and counters are themselves, and levels are what their digits are read as.

## Main definitions

* `Telemetry.Metric.draftWith` — the draft that the document of a metric is read as
* `Telemetry.Metric.MayRead` — what the level of a metric may be read as

## Main results

* `Telemetry.Wire.readsAs_of_decodeDraft`, `Telemetry.Wire.readsAs_of_decodeDrafts` — what
  documents are taken for
-/

namespace Telemetry

open Json

variable {ε : Type}

/-- A value that survives is read as nothing else. -/
theorem Value.ReadsAs.eq_of_survives {v w : Value} (h : v.ReadsAs w) (hv : v.Survives) :
    w = v := by
  cases v with
  | counter d => exact h
  | gauge x =>
    obtain ⟨y, hread, -, rfl⟩ := h
    rw [(survives_gauge_iff.mp hv).2] at hread
    cases hread
    rfl

namespace Metric

/-- The draft of a metric whose level, if it has one, was read as this. -/
def draftWith (m : Metric) (level? : Option Binary64) : Draft :=
  match m.value with
  | .gauge _ => { id := m.id, type := Kind.gauge.word, value := level? }
  | .counter n => { id := m.id, type := Kind.counter.word, delta := some n }

/-- Is this what the text of the level of a metric is read as, if it has one? -/
def MayRead (m : Metric) (level? : Option Binary64) : Prop :=
  ∀ x, m.value = .gauge x → ∀ y ∈ level?, binary64 (ε := Refusal) (number x) = .ok (y, [])

theorem mayRead_none (m : Metric) : m.MayRead none := by
  rintro x - y ⟨⟩

/-- What passes the checks is what the metric is read as. -/
theorem readsAs_of_metric? {m m' : Metric} {level? : Option Binary64} (hlevel : m.MayRead level?)
    (h : (m.draftWith level?).metric? = .ok m') : m.ReadsAs m' := by
  obtain ⟨hne, hid, hfinite, k, hkind, hvalue⟩ := Draft.metric?_eq_ok h
  obtain ⟨name, x | n⟩ := m
  · have hkind : Kind.read Kind.gauge.word = .ok k := hkind
    rw [Kind.read_word] at hkind
    cases hkind
    obtain ⟨y, hy, hvalue⟩ := Option.map_eq_some_iff.mp hvalue
    rw [← hvalue] at hfinite
    exact ⟨hne, hid, y, hlevel x rfl y hy, hfinite, hvalue.symm⟩
  · have hkind : Kind.read Kind.counter.word = .ok k := hkind
    rw [Kind.read_word] at hkind
    cases hkind
    exact ⟨hne, hid, (Option.some.inj hvalue).symm⟩

end Metric

namespace Wire

/-- A level that is no finite number is written as null. -/
theorem optional_null {x : Binary64} (hx : x.isFinite = false) (t : Bytes) :
    optional (binary64 (ε := ε)) (number x ++ t) = .ok (none, t) := by
  rw [number, hx]
  rfl

/-- **Any metric that is written is read as a draft**, which lacks at most the level. -/
theorem exists_draft_writeDraft (l : Layout) (depth : ℕ) (m : Metric) :
    ∃ level?, m.MayRead level? ∧ ∀ fuel, 4 ≤ fuel →
      ReadsBack (draft (ε := ε) fuel) (writeDraft l depth m.draft) (m.draftWith level?) := by
  obtain ⟨name, x | n⟩ := m
  · cases hx : x.isFinite with
    | true =>
      obtain ⟨y, hread, -⟩ := binary64_number (ε := ε) hx
      refine ⟨some y, ?_, fun fuel hfuel => ?_⟩
      · rintro _ ⟨⟩ _ ⟨⟩
        exact binary64_congr hread
      · refine draft_writeDraft_of (k := .value) rfl (by decide) (fun t ht => ?_) hfuel
        rw [Member.read, valueMember, optional_blank (fun _ => isSpace_of_mem_colon),
          optional_binary64 (binary64_append ht hread)]
        rfl
    | false =>
      refine ⟨none, Metric.mayRead_none _, fun fuel hfuel => ?_⟩
      refine draft_writeDraft_of (k := .value) rfl (by decide) (fun t ht => ?_) hfuel
      rw [Member.read, valueMember, optional_blank (fun _ => isSpace_of_mem_colon),
        optional_null hx]
      rfl
  · refine ⟨none, Metric.mayRead_none _, fun fuel hfuel => ?_⟩
    refine draft_writeDraft_of (k := .delta) rfl (by decide) (fun t ht => ?_) hfuel
    rw [Member.read, valueMember, optional_blank (fun _ => isSpace_of_mem_colon),
      optional_int64 (int64_append ht (int64_integer (ε := ε) n))]
    rfl

/-! ### Whole documents -/

/-- **What the document of a metric is taken for** is what the metric is read as. -/
theorem readsAs_of_decodeDraft {m m' : Metric} {d : Draft} (hd : decodeDraft (encode m) = .ok d)
    (hm : d.metric? = .ok m') : m.ReadsAs m' := by
  obtain ⟨level?, hlevel, hread⟩ := exists_draft_writeDraft (ε := Empty) .compact 0 m
  have hdraft : decodeDraft (encode m) = .ok (m.draftWith level?) :=
    document_of_readsBack (hread _ (four_le_length_encode m))
  cases hd.symm.trans hdraft
  exact Metric.readsAs_of_metric? hlevel hm

theorem exists_draftsWith (ms : List Metric) :
    ∃ ds, List.Forall₂ (fun m d => ∃ level?, d = m.draftWith level? ∧ m.MayRead level? ∧
      ∀ fuel, 4 ≤ fuel → ReadsBack (draft (ε := ε) fuel) (writeDraft .compact 1 m.draft) d)
      ms ds := by
  induction ms with
  | nil => exact ⟨[], .nil⟩
  | cons m ms ih =>
    obtain ⟨level?, hlevel, hread⟩ := exists_draft_writeDraft (ε := ε) .compact 1 m
    obtain ⟨ds, hds⟩ := ih
    exact ⟨m.draftWith level? :: ds, .cons ⟨level?, rfl, hlevel, hread⟩ hds⟩

/-- **What the document of a list is taken for** is what its metrics are read as, one by one. -/
theorem readsAs_of_decodeDrafts {ms ms' : List Metric} {ds : List Draft}
    (hds : decodeDrafts (encodeAll ms) = .ok ds) (hms : ds.mapM Draft.metric? = .ok ms') :
    List.Forall₂ Metric.ReadsAs ms ms' := by
  obtain ⟨ds', hread⟩ := exists_draftsWith (ε := Empty) ms
  have hdrafts : decodeDrafts (encodeAll ms) = .ok ds' :=
    document_encodeList .compact (hread.imp fun _ _ h => h.choose_spec.2.2)
  cases hds.symm.trans hdrafts
  have hchecked := forall₂_of_mapM hms
  clear hds hdrafts hms
  induction hread generalizing ms' with
  | nil =>
    cases hchecked
    exact .nil
  | cons hm _ ih =>
    obtain ⟨level?, rfl, hlevel, -⟩ := hm
    cases hchecked with
    | cons hfirst hrest => exact .cons (Metric.readsAs_of_metric? hlevel hfirst) (ih hrest)

end Wire
end Telemetry
