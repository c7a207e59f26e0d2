import Telemetry.Proofs.Backoff
import Telemetry.Proofs.Http.Agreement

/-!
# The request of a delivery and its attempts

A courier makes one request of a delivery and sends it until it hears an answer of success or has
no delay left. So a delivery is told by the answers to that one request: it ends with the first of
success, and otherwise with the last it may ask for. What the peer would have said to anything else,
at any other moment or later on, does not matter.

## Main definitions

* `Telemetry.Agent.accepts` — the answers that end a delivery well
* `Telemetry.Agent.Courier.outcome` — what comes of an attempt, by the answer to it
* `Telemetry.Agent.Courier.moment` — when an attempt is due

## Main results

* `Telemetry.Agent.Courier.deliver_eq_first` — a delivery ends with the first answer of success
* `Telemetry.Agent.Courier.deliver_repeats_one_request` — the same, with all there is to say about
  the request
-/

namespace Telemetry.Agent

/-- Is this the answer that ends a delivery well? -/
def accepts (answer? : Option Answer) : Bool := answer?.any Answer.isSuccess

namespace Courier

/-! ### The attempts -/

/-- What comes of an attempt, by the answer to it. -/
def outcome : Option Answer → Except DeliveryFault Bytes
  | none => .error .unanswered
  | some a => if a.isSuccess then .ok a.body else .error (.refused a)

/-- When the attempts of a delivery are due that begins at a moment. -/
def moment (t : Courier) (start i : ℕ) : ℕ := start + (t.backoff.delays.take i).sum

theorem attempt_eq (peer : Peer) (r : Outgoing) (now made : ℕ) :
    attempt peer r now made = (outcome (peer made now r), made + 1) := by
  rw [attempt]
  cases peer made now r <;> rfl

theorem isOk_outcome (answer? : Option Answer) : (outcome answer?).isOk = accepts answer? := by
  cases answer? with
  | none => rfl
  | some a =>
    simp only [outcome, accepts, Option.any_some]
    cases a.isSuccess <;> rfl

/-- Every failure of a delivery may pass, so nothing settles it but a success. -/
theorem settles_outcome (answer? : Option Answer) :
    Backoff.Settles (fun _ => true) (outcome answer?) ↔ accepts answer? = true := by
  rw [← isOk_outcome]
  cases outcome answer? with
  | error f => exact iff_of_false (fun h => Bool.noConfusion (h f rfl)) Bool.false_ne_true
  | ok body => exact iff_of_true (fun f hf => by cases hf) rfl

/-- What comes of a request that is sent at given moments. -/
theorem getElem?_outcomes_attempt (peer : Peer) (r : Outgoing) (start : ℕ) (ts : List ℕ)
    (made i : ℕ) :
    (Backoff.outcomes (fun now => attempt peer r (start + now)) ts made).1[i]?
      = ts[i]?.map fun now => outcome (peer (made + i) (start + now) r) := by
  induction ts generalizing made i with
  | nil => rfl
  | cons t ts ih =>
    rw [Backoff.outcomes, attempt_eq]
    cases i with
    | zero => rfl
    | succ i =>
      rw [List.getElem?_cons_succ, List.getElem?_cons_succ, ih, Nat.add_right_comm, Nat.add_assoc]

/-- Every attempt is counted. -/
theorem outcomes_attempt_snd (peer : Peer) (r : Outgoing) (start : ℕ) (ts : List ℕ) (made : ℕ) :
    (Backoff.outcomes (fun now => attempt peer r (start + now)) ts made).2 = made + ts.length := by
  induction ts generalizing made with
  | nil => rfl
  | cons t ts ih =>
    rw [Backoff.outcomes, attempt_eq, ih, List.length_cons, Nat.add_right_comm, Nat.add_assoc]

/-- **A delivery ends with the first answer of success**, or with the last attempt there is a delay
for. It is that answer which the caller hears of. -/
theorem deliver_eq_first (t : Courier) (peer : Peer) (start : ℕ) (d : Delivery)
    (compress : Bytes → Bytes := Gzip.compress) :
    ∃ j, IsLeast {i | i = t.backoff.delays.length ∨
        accepts (peer i (t.moment start i) (t.request d compress)) = true} j ∧
      t.deliver peer start d compress
        = ⟨.returned (outcome (peer j (t.moment start j) (t.request d compress))), j + 1,
          (t.backoff.delays.take j).sum⟩ := by
  obtain ⟨j, r, ⟨hj, hleast⟩, hresult, hrun⟩ := t.backoff.run_eq_first (fun _ => true)
    (fun now => attempt peer (t.request d compress) (start + now)) 0
  -- the result of each attempt, as long as there is a delay for it
  have hat : ∀ i ≤ t.backoff.delays.length,
      (Backoff.outcomes (fun now => attempt peer (t.request d compress) (start + now))
        t.backoff.moments 0).1[i]?
          = some (outcome (peer i (t.moment start i) (t.request d compress))) := by
    intro i hi
    rw [getElem?_outcomes_attempt, Backoff.getElem?_moments _ hi, Nat.zero_add]
    rfl
  have hjle : j ≤ t.backoff.delays.length := hleast (.inl rfl)
  refine ⟨j, ⟨?_, fun i hi => ?_⟩, ?_⟩
  · rcases hj with hj | ⟨r', hr', hsettles⟩
    · exact .inl hj
    · rw [hat j hjle] at hr'
      cases hr'
      exact .inr ((settles_outcome _).mp hsettles)
  · rcases hi with hi | hi
    · exact hleast (.inl hi)
    · rcases Nat.le_total i t.backoff.delays.length with hle | hle
      · exact hleast (.inr ⟨_, hat i hle, (settles_outcome _).mpr hi⟩)
      · exact Nat.le_trans hjle hle
  · have hlength : (t.backoff.moments.take (j + 1)).length = j + 1 := by
      rw [List.length_take, Backoff.length_moments]
      exact Nat.min_eq_left (Nat.succ_le_succ hjle)
    rw [hat j hjle] at hresult
    cases hresult
    rw [deliver, hrun, outcomes_attempt_snd, hlength, Nat.zero_add]

/-- A delivery is accepted just if it ends with an answer of success. -/
theorem accepted_returned (answer? : Option Answer) (made time : ℕ) :
    accepted ⟨.returned (outcome answer?), made, time⟩ = accepts answer? := by
  rw [← isOk_outcome]
  cases outcome answer? <;> rfl

/-! ### The request -/

/-- A request is signed just if it carries a document and the courier has a key: with the keyed hash
of the document as it was before it was compressed. -/
theorem lookup_signature (t : Courier) (d : Delivery) (compress : Bytes → Bytes) :
    (t.request d compress).headers.lookup "hashsha256" =
      d.document?.bind fun q => t.key.map fun k => Hex.text (Hmac.sha256 k.secret q.2) := by
  cases d with
  | path m => rfl
  | document m =>
    cases hkey : t.key <;>
      simp [request, document, Delivery.document?, List.lookup_cons, hkey, SigningKey.sign]
  | batch ms =>
    cases hkey : t.key <;>
      simp [request, document, Delivery.document?, List.lookup_cons, hkey, SigningKey.sign]

/-- A document is had again from the body of its request. A path needs no body. -/
theorem decompress?_request (t : Courier) (d : Delivery) {compress : Bytes → Bytes}
    (hcompress : ∀ b, Gzip.decompress? (compress b) = some b) :
    match d.document? with
    | some (_, json) => Gzip.decompress? (t.request d compress).body = some json ∧
        (t.request d compress).headers.lookup "content-encoding" = some "gzip"
    | none => (t.request d compress).body = [] := by
  cases d with
  | path m => rfl
  | document m => exact ⟨hcompress _, rfl⟩
  | batch ms => exact ⟨hcompress _, rfl⟩

/-- **A delivery sends one and the same request until it is accepted.** It is accepted just if one
of the attempts that there are delays for is answered with success. It ends with the first of these,
or else with what the last attempt comes to, and asks for nothing but the answers up to there, all
to one request: a `POST` that holds its document compressed, by any encoder whose work can be
undone, and, with a key, signed. -/
theorem deliver_repeats_one_request (t : Courier) (peer : Peer) (start : ℕ) (d : Delivery)
    {compress : Bytes → Bytes} (hcompress : ∀ b, Gzip.decompress? (compress b) = some b) :
    let r := t.request d compress
    let reply := fun i => peer i (t.moment start i) r
    let e := t.deliver peer start d compress
    (accepted e = true ↔ ∃ i < t.backoff.maxAttempts, accepts (reply i) = true) ∧
    (∃ j, IsLeast {i | i = t.backoff.delays.length ∨ accepts (reply i) = true} j ∧
      e = ⟨.returned (outcome (reply j)), j + 1, (t.backoff.delays.take j).sum⟩ ∧
      ∀ peer' : Peer, (∀ i ≤ j, peer' i (t.moment start i) r = reply i) →
        t.deliver peer' start d compress = e) ∧
    r.received.method = .post ∧
    (match d.document? with
      | some (_, json) => Gzip.decompress? r.body = some json ∧
          r.headers.lookup "content-encoding" = some "gzip"
      | none => r.body = []) ∧
    r.headers.lookup "hashsha256" =
      d.document?.bind fun q => t.key.map fun k => Hex.text (Hmac.sha256 k.secret q.2) := by
  intro r reply e
  obtain ⟨j, hleast, hdeliver⟩ := t.deliver_eq_first peer start d compress
  have hjle : j ≤ t.backoff.delays.length := hleast.2 (.inl rfl)
  refine ⟨?_, ⟨j, hleast, hdeliver, fun peer' hpeer => ?_⟩, rfl,
    t.decompress?_request d hcompress, t.lookup_signature d compress⟩
  · show accepted (t.deliver peer start d compress) = true ↔ _
    rw [hdeliver, accepted_returned]
    refine ⟨fun haccepts => ⟨j, Nat.lt_succ_of_le hjle, haccepts⟩, ?_⟩
    rintro ⟨i, hi, haccepts⟩
    rcases hleast.1 with hlast | hj
    · -- the last attempt is the only one that is left for the success
      have hij : i = j :=
        Nat.le_antisymm (hlast ▸ Nat.le_of_lt_succ hi) (hleast.2 (.inr haccepts))
      exact hij ▸ haccepts
    · exact hj
  · obtain ⟨j', hleast', hdeliver'⟩ := t.deliver_eq_first peer' start d compress
    have hj' : j' ≤ j := by
      refine hleast'.2 (hleast.1.imp_right fun h => ?_)
      rw [hpeer j (Nat.le_refl j)]
      exact h
    have hjj' : j ≤ j' := by
      refine hleast.2 (hleast'.1.imp_right fun h => ?_)
      rw [hpeer j' hj'] at h
      exact h
    obtain rfl : j' = j := Nat.le_antisymm hj' hjj'
    show t.deliver peer' start d compress = t.deliver peer start d compress
    rw [hdeliver', hdeliver, hpeer j' (Nat.le_refl j')]

/-- The first attempt at a signed list of one metric is not answered, and the second is accepted. -/
theorem deliver_repeats_one_request_twice :
    let t : Courier := ⟨⟨"http", "localhost", some 8080, [""], none⟩, some ⟨[107]⟩, ⟨[1000]⟩⟩
    let peer : Peer := fun made _ _ => if made = 0 then none else some ⟨200, []⟩
    let json := Wire.encodeAll [⟨"n", .counter 5⟩]
    let r := t.request (.batch [⟨"n", .counter 5⟩])
    (∀ b, Gzip.decompress? (Gzip.compress b) = some b) ∧
      accepted (t.deliver peer 0 (.batch [⟨"n", .counter 5⟩])) = true ∧
      Gzip.decompress? r.body = some json ∧
      r.headers.lookup "hashsha256" = some (Hex.text (Hmac.sha256 [107] json)) := by
  intro t peer json r
  obtain ⟨haccepted, -, -, ⟨hbody, -⟩, hsigned⟩ :=
    t.deliver_repeats_one_request peer 0 (.batch [⟨"n", .counter 5⟩]) Gzip.decompress?_compress
  exact ⟨Gzip.decompress?_compress, haccepted.mpr ⟨1, by decide, rfl⟩, hbody, hsigned⟩

end Courier

end Telemetry.Agent
