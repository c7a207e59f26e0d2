import Telemetry.Http.Server
import Mathlib.Data.Nat.Notation
import Mathlib.Tactic.SplitIfs

/-!
# The way of a request through the layers

A request is answered by one of the layers, or it is passed on to the handler. Which of the two it
is follows from the request and the key of the server alone. A layer that answers by itself leaves
the server as it was; of a request that is passed on, the status that is seen and the store that is
left are what the handler makes of them.

## Main definitions

* `Telemetry.Http.seen` — what the layers keep of an answer
* `Telemetry.Http.Server.passOn` — the body that is passed on, or the status of a layer's answer

## Main results

* `Telemetry.Http.Server.respond_refused` — a request that is answered by a layer
* `Telemetry.Http.Server.respond_passedOn` — a request that is passed on
-/

namespace Telemetry.Http

/-- A body that has been collected is whole. -/
theorem collect_eq_ok {body : Incoming} {limit : ℕ} {b : Bytes} (h : body.collect limit = .ok b) :
    body = ⟨b, true⟩ := by
  obtain ⟨content, whole⟩ := body
  rw [Incoming.collect] at h
  split_ifs at h with hlong hwhole
  · cases h
    exact congrArg (Incoming.mk content) hwhole

theorem collect_whole {b : Bytes} {limit : ℕ} (h : b.length ≤ limit) :
    Incoming.collect ⟨b, true⟩ limit = .ok b := by
  rw [Incoming.collect, if_neg (Nat.not_lt.mpr h), if_pos rfl]

theorem status_encodeResponse (h : Headers) (r : Response) :
    (encodeResponse h r).status = r.status := by
  rw [encodeResponse]
  split <;> rfl

/-- What the layers keep of an answer: its status, unless it comes too late, and the store. -/
def seen (a : Answer) : Option ℕ × Store := (a.1.map Response.status, a.2)

/-- A layer may change a response, but not its status. -/
theorem seen_map {f : Response → Response} (hf : ∀ r, (f r).status = r.status) (a : Answer) :
    seen (a.1.map f, a.2) = seen a := by
  obtain ⟨_ | r, b⟩ := a
  · rfl
  · simp [seen, hf]

namespace Server

variable (s : Server) (o : Occasion) (r : Request)

/-! ### What is passed on -/

/-- The body that the layer of signatures passes on, or the status of its own answer. -/
def vet (body : Incoming) : Except ℕ Bytes :=
  match s.key with
  | none => .ok body.content
  | some key =>
    match body.collect bodyLimit with
    | .error _ => .error 400
    | .ok bytes =>
      match (givenSignature r.headers).map (key.verify bytes) with
      | some (.error _) => .error 400
      | _ => .ok bytes

/-- The body that the layers pass on to the handler, or the status with which one of them answers
by itself. -/
def passOn : Except ℕ Bytes :=
  if r.method = .options then .error 200
  else match decodeRequest r with
    | none => .error 415
    | some body =>
      if r.method = .post then
        match body.collect bodyLimit with
        | .error .tooLong => .error 413
        | .error .broken => .error 400
        | .ok bytes => s.vet r ⟨bytes, true⟩
      else s.vet r body

/-- What is seen of a request when this is what its layers pass on. -/
def seenAfter : Except ℕ Bytes → Option ℕ × Store
  | .error status => (some status, s.store)
  | .ok body => seen (s.handling o r body)

/-! ### Layer by layer -/

theorem seen_signing (body : Incoming) :
    seen (s.signing o r body) = s.seenAfter o r (s.vet r body) := by
  rw [signing, vet]
  cases s.key with
  | none => rfl
  | some key =>
    dsimp only
    cases body.collect bodyLimit with
    | error f => rfl
    | ok bytes =>
      dsimp only
      rcases (givenSignature r.headers).map (key.verify bytes) with _ | ⟨f | ⟨⟩⟩
      · exact seen_map (f := sign key) (fun _ => rfl) _
      · rfl
      · exact seen_map (f := sign key) (fun _ => rfl) _

theorem seen_logged (shown : Bytes) (body : Incoming) :
    seen (s.logged o r shown body).1 = s.seenAfter o r (s.vet r body) := by
  rw [← seen_signing, logged]
  rcases s.signing o r body with ⟨_ | response, b⟩ <;> rfl

theorem seen_logging (body : Incoming) (hr : r.method ≠ .options)
    (hbody : decodeRequest r = some body) :
    seen (s.logging o r body).1 = s.seenAfter o r (s.passOn r) := by
  simp only [logging, passOn, if_neg hr, hbody]
  by_cases hpost : r.method = .post
  · rw [if_pos hpost, if_pos hpost]
    rcases body.collect bodyLimit with ⟨⟨⟩⟩ | bytes
    · rfl
    · rfl
    · exact s.seen_logged o r bytes ⟨bytes, true⟩
  · rw [if_neg hpost, if_neg hpost]
    exact s.seen_logged o r [] body

/-- What is seen of a reply: an answer that comes too late is replaced by a timeout. -/
theorem seen_timed (hr : r.method ≠ .options) :
    (s.timed o r).response.status = (s.seenAfter o r (s.passOn r)).1.getD 408 ∧
      (s.timed o r).server = { s with store := (s.seenAfter o r (s.passOn r)).2 } := by
  rw [timed]
  cases hbody : decodeRequest r with
  | none => simp [passOn, hr, hbody, seenAfter, unsupportedCoding, Response.withHeader,
      Response.empty]
  | some body =>
    rw [← s.seen_logging o r body hr hbody]
    rcases hlogging : s.logging o r body with ⟨⟨_ | response, b⟩, log⟩
    · simp only [hlogging]
      exact ⟨rfl, rfl⟩
    · simp only [hlogging]
      exact ⟨status_encodeResponse r.headers response, rfl⟩

theorem respond_seen (hr : r.method ≠ .options) :
    (s.respond o r).response.status = (s.seenAfter o r (s.passOn r)).1.getD 408 ∧
      (s.respond o r).server = { s with store := (s.seenAfter o r (s.passOn r)).2 } := by
  obtain ⟨hstatus, hserver⟩ := s.seen_timed o r hr
  rw [respond, if_neg hr]
  refine ⟨Eq.trans ?_ hstatus, hserver⟩
  dsimp only
  split <;> rfl

/-! ### All layers -/

variable {s r}

/-- **A request that a layer answers by itself** leaves the server as it was. -/
theorem respond_refused {status : ℕ} (h : s.passOn r = .error status) :
    (s.respond o r).response.status = status ∧ (s.respond o r).server = s := by
  by_cases hr : r.method = .options
  · rw [passOn, if_pos hr] at h
    cases h
    rw [respond, if_pos hr]
    exact ⟨rfl, rfl⟩
  · have hseen := s.respond_seen o r hr
    rwa [h] at hseen

/-- **A request that is passed on** is answered with the status that its handler gives, if the
handler is in time, and leaves the store that the handler leaves. -/
theorem respond_passedOn {body : Bytes} (h : s.passOn r = .ok body) :
    (s.respond o r).response.status
        = ((s.handling o r body).1.map Response.status).getD 408 ∧
      (s.respond o r).server = { s with store := (s.handling o r body).2 } := by
  have hr : r.method ≠ .options := by
    intro hr
    rw [passOn, if_pos hr] at h
    cases h
  have hseen := s.respond_seen o r hr
  rwa [h] at hseen

/-! ### The layer of signatures -/

/-- A body whose signature is good, if it comes with one, is passed on. -/
theorem vet_of_good {body : Incoming} {bytes : Bytes}
    (hcollect : body.collect bodyLimit = .ok bytes)
    (hgood : ∀ key, s.key = some key → ∀ x, givenSignature r.headers = some x →
      key.verify bytes x = .ok ()) : s.vet r body = .ok bytes := by
  rw [vet]
  cases hs : s.key with
  | none => rw [collect_eq_ok hcollect]
  | some key =>
    simp only [hcollect]
    cases hx : givenSignature r.headers with
    | none => rfl
    | some x => simp only [Option.map_some, hgood key hs x hx]

/-! ### Requests with POST -/

theorem vet_whole {bytes body : Bytes} (h : s.vet r ⟨bytes, true⟩ = .ok body) : body = bytes := by
  rw [vet] at h
  split at h
  · cases h
    rfl
  · split at h
    · cases h
    · rename_i collected hcollect
      cases collect_eq_ok hcollect
      split at h <;> cases h
      rfl

theorem status_of_vet {body : Incoming} {status : ℕ} (h : s.vet r body = .error status) :
    status = 400 := by
  rw [vet] at h
  split at h
  · cases h
  · split at h
    · cases h
      rfl
    · split at h <;> cases h
      rfl

/-- What is passed on of a request with POST is the whole of its body. -/
theorem decodeRequest_of_passOn (hpost : r.method = .post) {body : Bytes}
    (h : s.passOn r = .ok body) : decodeRequest r = some ⟨body, true⟩ := by
  rw [passOn, hpost, if_neg Method.noConfusion] at h
  split at h
  · cases h
  · rename_i incoming hdecode
    rw [if_pos rfl] at h
    split at h
    · cases h
    · cases h
    · rename_i bytes hcollect
      rw [hdecode, collect_eq_ok hcollect, vet_whole h]

/-- A request with POST that a layer answers by itself has failed. -/
theorem status_of_refused (hpost : r.method = .post) {status : ℕ} (h : s.passOn r = .error status) :
    status = 400 ∨ status = 413 ∨ status = 415 := by
  rw [passOn, hpost, if_neg Method.noConfusion] at h
  split at h
  · cases h
    exact .inr (.inr rfl)
  · rw [if_pos rfl] at h
    split at h
    · cases h
      exact .inr (.inl rfl)
    · cases h
      exact .inl rfl
    · exact .inl (status_of_vet h)

end Server

end Telemetry.Http
