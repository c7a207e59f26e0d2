import Telemetry.Proofs.Http.Deadlines

/-!
# How long a body may be

A body comes in frames, and up to three readers buffer it: the layer of the log and the layer of
signatures, which share one limit, and the reader of documents in front of the handler, whose limit
is half of that. It is the smaller limit that decides about a document which the layers pass on. So
a document between the two limits is refused as too long, unless one of the layers has refused it
for another reason before.

## Main definitions

* `Telemetry.Http.Frame`, `Telemetry.Http.readFrames` — a body as it comes, and the loop that
  buffers it
* `Telemetry.Http.Incoming.ofFrames` — what can be read of it
* `Telemetry.Http.Call.hasDocument` — the calls with a document in their body
* `Telemetry.Http.Server.Admits` — a signature that lets a body pass

## Main results

* `Telemetry.Http.readFrames_eq_collect` — the split into frames does not matter
* `Telemetry.Http.Server.too_long_iff` — which documents are refused as too long
* `Telemetry.Http.Server.shorter_refused` — a document that is refused below the limit of the layers
-/

namespace Telemetry.Http

/-! ### Frames -/

/-- A part of a body that arrives. -/
inductive Frame where
  | data (bytes : Bytes)
  /-- Header lines behind the body. -/
  | trailers
  /-- The connection has failed, or the compressed data are no good. -/
  | broken

/-- What can be read of a body that arrives in frames. -/
def Incoming.ofFrames : List Frame → Incoming
  | [] => ⟨[], true⟩
  | .data bytes :: frames => ⟨bytes ++ (ofFrames frames).content, (ofFrames frames).whole⟩
  | .trailers :: frames => ofFrames frames
  | .broken :: _ => ⟨[], false⟩

/-- Appends the frames to a buffer one by one, and gives up as soon as it grows past a limit. -/
def readFrames (limit : ℕ) (buffer : Bytes) : List Frame → Except BodyFault Bytes
  | [] => .ok buffer
  | .data bytes :: frames =>
    if limit < buffer.length + bytes.length then .error .tooLong
    else readFrames limit (buffer ++ bytes) frames
  | .trailers :: frames => readFrames limit buffer frames
  | .broken :: _ => .error .broken

/-- Frames behind a buffer that has not grown past the limit are read as if both were one body. -/
theorem readFrames_append {limit : ℕ} {buffer : Bytes} (hbuffer : buffer.length ≤ limit)
    (frames : List Frame) :
    readFrames limit buffer frames
      = Incoming.collect ⟨buffer ++ (Incoming.ofFrames frames).content,
          (Incoming.ofFrames frames).whole⟩ limit := by
  induction frames generalizing buffer with
  | nil => rw [readFrames, Incoming.ofFrames, List.append_nil, collect_whole hbuffer]
  | cons frame frames ih =>
    cases frame with
    | data bytes =>
      rw [readFrames, Incoming.ofFrames]
      split_ifs with hlong
      · rw [Incoming.collect, if_pos]
        simp only [List.length_append]
        omega
      · rw [ih (by simpa using hlong), List.append_assoc]
    | trailers => exact ih hbuffer
    | broken =>
      rw [readFrames, Incoming.ofFrames, Incoming.collect, List.append_nil,
        if_neg (Nat.not_lt.mpr hbuffer), if_neg Bool.false_ne_true]

/-- **The split of a body into frames does not matter** to how much of it is buffered. -/
theorem readFrames_eq_collect (limit : ℕ) (frames : List Frame) :
    readFrames limit [] frames = (Incoming.ofFrames frames).collect limit :=
  readFrames_append (Nat.zero_le limit) frames

/-! ### The reader of documents -/

/-- Is there a document in the body of a call? -/
def Call.hasDocument : Call → Bool
  | .updateOne | .updateMany | .value => true
  | _ => false

theorem status_conclude_ne {α : Type} {n : ℕ} (hlate : 408 ≠ n) {good : α → Response}
    (hgood : ∀ a, (good a).status ≠ n) {bad : StoreError → Response}
    (hbad : ∀ e, (bad e).status ≠ n) (f : Store.Finished α) :
    (conclude f good bad).status ≠ n := by
  obtain ⟨(e | a) | _, b⟩ := f
  · exact hbad e
  · exact hgood a
  · exact hlate

theorem status_storeFailure_ne (trace : String) (e : StoreError) :
    (storeFailure trace e).status ≠ 413 := by
  cases e <;> exact of_decide_eq_true rfl

/-- What is wrong with a document is the client's fault. -/
theorem status_of_checked {δ α : Type} {trace : String} {document : Except (Json.Fault Empty) δ}
    {check : δ → Except Refusal α} {r : Response} (h : checked trace document check = .error r) :
    r.status = 400 := by
  rcases checked_error h with ⟨f, rfl⟩ | ⟨e, rfl⟩ <;> rfl

section

variable (b : Store) (deadline : Option Deadline) (trace : String) (body : Bytes)

theorem status_updateOne_ne : (updateOne b deadline trace body).status ≠ 413 := by
  rw [updateOne]
  cases h : metricOf trace body with
  | error r => exact (status_of_checked h).trans_ne (by decide)
  | ok m =>
    exact status_conclude_ne (by decide) (fun _ => of_decide_eq_true rfl)
      (status_storeFailure_ne trace) _

theorem status_updateMany_ne : (updateMany b deadline trace body).status ≠ 413 := by
  rw [updateMany]
  cases h : metricsOf trace body with
  | error r => exact (status_of_checked h).trans_ne (by decide)
  | ok ms =>
    exact status_conclude_ne (by decide) (fun _ => of_decide_eq_true rfl)
      (status_storeFailure_ne trace) _

theorem status_value_ne : (value b deadline trace body).status ≠ 413 := by
  rw [value]
  cases h : keyOf trace body with
  | error r => exact (status_of_checked h).trans_ne (by decide)
  | ok k =>
    refine status_conclude_ne (by decide) (fun m? => ?_) (status_storeFailure_ne trace) _
    cases m? <;> exact of_decide_eq_true rfl

/-- The reader of documents refuses what is longer than its own limit, and what reads the document
never says that it is too long. -/
theorem status_withDocument {use : Bytes → Answer} (huse : (use body).status ≠ 413) :
    (withDocument body b use).status = 413 ↔ documentLimit < body.length := by
  rw [withDocument]
  split_ifs with hlength
  · exact iff_of_false huse (Nat.not_lt.mpr hlength)
  · exact iff_of_true rfl (Nat.lt_of_not_le hlength)

theorem status_answer_document (askable : Bool) {c : Call} (hc : c.hasDocument = true) :
    (answer b askable deadline trace body c).status = 413 ↔ documentLimit < body.length := by
  cases c with
  | updateOne => exact status_withDocument b body (status_updateOne_ne b deadline trace body)
  | updateMany => exact status_withDocument b body (status_updateMany_ne b deadline trace body)
  | value => exact status_withDocument b body (status_value_ne b deadline trace body)
  | index | ping | updateByPath | valueByPath => cases hc

end

/-! ### All readers -/

/-- Documents come with POST only. -/
theorem post_of_found {μ : Method} {path : String} {c : Call} (h : route μ path = .found c)
    (hc : c.hasDocument = true) : μ = .post := by
  rw [route] at h
  split at h
  · cases h
  · rename_i c' hcall
    split_ifs at h with hμ
    split at h
    · rename_i hdecode
      cases h
      cases c' with
      | index | ping => cases hdecode; cases hc
      | updateOne | updateMany | value => exact of_decide_eq_true hμ
      | updateByPath type id raw =>
        obtain ⟨_, _, _, -, -, -, rfl⟩ := decode_updateByPath hdecode
        cases hc
      | valueByPath type id =>
        obtain ⟨_, _, -, -, rfl⟩ := decode_valueByPath hdecode
        cases hc
    · cases h

namespace Server

/-- Does the layer of signatures let a body pass: is there no key, no signature, or one that is
good? -/
def Admits (s : Server) (h : Headers) (body : Bytes) : Prop :=
  ∀ key, s.key = some key → ∀ x, givenSignature h = some x → key.verify body x = .ok ()

variable {s : Server} {r : Request}

theorem vet_eq_ok_iff {bytes : Bytes} (hlength : bytes.length ≤ bodyLimit) :
    s.vet r ⟨bytes, true⟩ = .ok bytes ↔ s.Admits r.headers bytes := by
  refine ⟨fun h key hkey x hx => ?_, vet_of_good (collect_whole hlength)⟩
  rw [vet, hkey] at h
  simp only [collect_whole hlength, hx, Option.map_some] at h
  cases hverify : key.verify bytes x with
  | ok u => rfl
  | error f =>
    rw [hverify] at h
    cases h

/-- What is refused as too long, by whatever reader. -/
theorem status_eq_tooLong_iff (o : Occasion) {c : Call}
    (hroute : route r.method (targetPath r.target) = .found c) (hc : c.hasDocument = true)
    {body : Incoming} (hbody : decodeRequest r = some body) :
    (s.respond o r).response.status = 413 ↔
      bodyLimit < body.content.length ∨
        documentLimit < body.content.length ∧ body.whole = true ∧
          s.Admits r.headers body.content := by
  have hpost : r.method = .post := post_of_found hroute hc
  by_cases hlong : bodyLimit < body.content.length
  · have hpassOn : s.passOn r = .error 413 := by
      simp [passOn, hpost, hbody, Incoming.collect, hlong]
    exact iff_of_true (respond_refused o hpassOn).1 (.inl hlong)
  by_cases hwhole : body.whole = true
  · have hlength : body.content.length ≤ bodyLimit := Nat.le_of_not_lt hlong
    have hpassOn : s.passOn r = s.vet r ⟨body.content, true⟩ := by
      simp [passOn, hpost, hbody, Incoming.collect, hlong, hwhole]
    cases hvet : s.vet r ⟨body.content, true⟩ with
    | error status =>
      rw [(respond_refused o (hpassOn.trans hvet)).1, status_of_vet hvet]
      refine iff_of_false (by decide) ?_
      rintro (h | ⟨-, -, hadmits⟩)
      · exact hlong h
      · rw [(vet_eq_ok_iff hlength).mpr hadmits] at hvet
        cases hvet
    | ok bytes =>
      obtain rfl : bytes = body.content := vet_whole hvet
      have hadmits : s.Admits r.headers body.content := (vet_eq_ok_iff hlength).mp hvet
      rw [(respond_passedOn o (hpassOn.trans hvet)).1, handling, dispatch, hroute]
      refine (status_answer_document s.store _ _ _ s.askable hc).trans ?_
      exact ⟨fun h => .inr ⟨h, hwhole, hadmits⟩, fun h => h.elim (absurd · hlong) (·.1)⟩
  · have hpassOn : s.passOn r = .error 400 := by
      simp [passOn, hpost, hbody, Incoming.collect, hlong, hwhole]
    rw [(respond_refused o hpassOn).1]
    refine iff_of_false (by decide) ?_
    rintro (h | ⟨-, h, -⟩)
    · exact hlong h
    · exact hwhole h

/-- **Which documents are refused as too long.** However its body is split into frames and whether
it comes compressed or not, a document is refused as too long if it is longer than the limit of the
layers, or if it is longer than the limit of the reader of documents and both layers have passed it
on: it has an end, and no signature that is no good. -/
theorem too_long_iff (o : Occasion) {c : Call}
    (hroute : route r.method (targetPath r.target) = .found c) (hc : c.hasDocument = true)
    {body : Incoming} (hbody : decodeRequest r = some body) :
    (∀ frames, Incoming.ofFrames frames = body →
      readFrames bodyLimit [] frames = body.collect bodyLimit) ∧
    ((s.respond o r).response.status = 413 ↔
      bodyLimit < body.content.length ∨
        documentLimit < body.content.length ∧ body.whole = true ∧
          s.Admits r.headers body.content) :=
  ⟨fun frames hframes => hframes ▸ readFrames_eq_collect bodyLimit frames,
    status_eq_tooLong_iff o hroute hc hbody⟩

/-- A document of blanks that is longer than the limit of the layers. -/
theorem too_long_blank :
    let s : Server := { store := .memory .empty, key := some ⟨[1]⟩ }
    let body : Incoming := ⟨List.replicate 4194305 32, true⟩
    let r : Request :=
      { method := .post, target := "/updates/", headers := [], body := body.content }
    readFrames bodyLimit [] [.data body.content] = .error .tooLong ∧
      (s.respond { trace := "" } r).response.status = 413 := by
  intro s body r
  have hroute : route .post (targetPath "/updates/") = .found .updateMany := by decide +kernel
  have hlong : bodyLimit < body.content.length := by
    simp only [body, List.length_replicate]
    decide
  have hbody : decodeRequest r = some body := rfl
  obtain ⟨hframes, hstatus⟩ := too_long_iff (s := s) (r := r) { trace := "" } hroute rfl hbody
  have hone : Incoming.ofFrames [.data body.content] = body :=
    congrArg (fun content => (⟨content, true⟩ : Incoming)) (List.append_nil body.content)
  refine ⟨?_, hstatus.mpr (.inl hlong)⟩
  rw [hframes _ hone, Incoming.collect, if_pos hlong]

/-- A document below the limit of the layers is refused as too long, though nothing is wrong with
it: there are only blanks behind the metric. -/
theorem shorter_refused :
    ¬ ∀ (s : Server) (o : Occasion) (r : Request) (c : Call) (body : Incoming),
      route r.method (targetPath r.target) = .found c → c.hasDocument = true →
      decodeRequest r = some body →
        ((s.respond o r).response.status = 413 ↔ bodyLimit < body.content.length) := by
  intro h
  let document := Wire.encode ⟨"a", .counter 1⟩
  let body : Incoming := ⟨document ++ List.replicate 2097152 32, true⟩
  let r : Request :=
    { method := .post
      target := "/update/"
      headers := [("content-type", Bytes.ofText "application/json")]
      body := body.content }
  let s : Server := { store := .memory .empty }
  have hroute : route .post (targetPath "/update/") = .found .updateOne := by decide +kernel
  have hlength : body.content.length = 37 + 2097152 := by
    rw [List.length_append, List.length_replicate, show document.length = 37 by decide +kernel]
  have hbody : decodeRequest r = some body := rfl
  have hrefused : (s.respond { trace := "" } r).response.status = 413 := by
    refine (status_eq_tooLong_iff (c := .updateOne) _ hroute rfl hbody).mpr
      (.inr ⟨?_, rfl, nofun⟩)
    rw [hlength]
    decide
  have hlong := (h s { trace := "" } r .updateOne body hroute rfl hbody).mp hrefused
  rw [hlength] at hlong
  exact absurd hlong (by decide)

end Server

end Telemetry.Http
