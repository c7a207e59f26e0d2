import Telemetry.Proofs.Http.Deliveries
import Telemetry.Proofs.Http.Signing

/-!
# What is signed and what is checked

A courier signs a document, compresses it and sends both. A server decompresses what comes, buffers
it twice and checks the signature over what it has then. The two join up: each step of the server
undoes one of the courier's, so that the handler is given the document byte for byte. A delivery is
kept from its handler only if both sides have a key and the keys give the document different hashes.
A key that is the empty text is none, on either side.

## Main definitions

* `Telemetry.Agent.Delivery.document?` — the document of a delivery, and the call it is meant for
* `Telemetry.Agent.Courier.coded` — a request whose document may be compressed in any way

## Main results

* `Telemetry.Http.Server.respond_differing` — keys that give the document different hashes
* `Telemetry.Http.Server.respond_agreeing` — all other keys
* `Telemetry.Http.Server.documents_agreed_on` — any keys
-/

namespace Telemetry

open Agent (Courier Delivery)

/-! ### Documents -/

/-- The document of a delivery and the call that it is meant for, if it is delivered as one. -/
def Agent.Delivery.document? : Delivery → Option (Http.Call × Bytes)
  | .document m => some (.updateOne, Wire.encode m)
  | .batch ms => some (.updateMany, Wire.encodeAll ms)
  | .path _ => none

/-- The request of a delivery as a server receives it, with these bytes for the compressed
document. -/
def Agent.Courier.coded (t : Courier) (d : Delivery) (z : Bytes) : Http.Request :=
  { (t.request d).received with body := z }

namespace Http

variable {t : Courier} {d : Delivery} {c : Call} {json z : Bytes}

/-- A document is sent to the path of the call that it is meant for. -/
theorem request_of_document? (hd : d.document? = some (c, json)) :
    ∃ names, t.request d = t.document names json ∧ (t.base.IsRoot →
      route .post (targetPath (t.document names json).target) = .found c) := by
  cases d with
  | document m =>
    cases hd
    exact ⟨["update", ""], rfl, fun ht => route_updateOne ht⟩
  | batch ms =>
    cases hd
    exact ⟨["updates", ""], rfl, fun ht => route_updateMany ht⟩
  | path m => cases hd

namespace Server

variable {s : Server} (o : Occasion)

/-! ### One pair of keys -/

theorem decodeRequest_coded_document (hd : d.document? = some (c, json))
    (hz : Gzip.readAll z = (json, true)) : decodeRequest (t.coded d z) = some ⟨json, true⟩ := by
  obtain ⟨names, hrequest, -⟩ := request_of_document? (t := t) hd
  rw [Courier.coded, hrequest]
  exact decodeRequest_coded names hz

/-- The signature that a server is given was made of the document before it was compressed. -/
theorem givenSignature_coded (hd : d.document? = some (c, json)) :
    givenSignature (t.coded d z).headers = t.key.map fun k => k.sign json := by
  obtain ⟨names, hrequest, -⟩ := request_of_document? (t := t) hd
  rw [Courier.coded, hrequest]
  refine (givenSignature_document names json).trans ?_
  cases t.key with
  | none => rfl
  | some k => exact Option.filter_eq_some_iff.mpr ⟨rfl, decide_eq_true (k.sign_ne_empty json)⟩

theorem reaching?_coded (hd : d.document? = some (c, json)) (hlength : json.length ≤ bodyLimit)
    (hz : Gzip.readAll z = (json, true)) : (t.coded d z).reaching? = some ⟨json, true⟩ :=
  Request.reaching?_of_post rfl (decodeRequest_coded_document hd hz) hlength

/-- **Keys that give a document different hashes** keep it from its handler. -/
theorem respond_differing {k k' : SigningKey} (hs : s.key = some k) (ht : t.key = some k')
    (hdiffer : Hmac.sha256 k'.secret json ≠ Hmac.sha256 k.secret json)
    (hd : d.document? = some (c, json)) (hlength : json.length ≤ bodyLimit)
    (hz : Gzip.readAll z = (json, true)) :
    (s.respond o (t.coded d z)).response
        = (t.coded d z).given o (some (badSignature o.trace .mismatch)) ∧
      (s.respond o (t.coded d z)).server = s := by
  have hgiven : givenSignature (t.coded d z).headers = some (k'.sign json) := by
    rw [givenSignature_coded hd, ht, Option.map_some]
  have hmismatch : k.verify json (k'.sign json) = .error .mismatch := by
    rw [SigningKey.verify_sign_of, if_neg hdiffer]
  obtain ⟨hresponse, hserver⟩ := s.respond_reaching o (reaching?_coded hd hlength hz)
  rw [signing_of_fault hs (collect_whole hlength) hgiven hmismatch] at hresponse hserver
  exact ⟨hresponse, hserver⟩

/-- **All other keys** let the handler have the document as it was written. -/
theorem respond_agreeing
    (hagree : ∀ k k', s.key = some k → t.key = some k' →
      Hmac.sha256 k'.secret json = Hmac.sha256 k.secret json)
    (hd : d.document? = some (c, json)) (hlength : json.length ≤ bodyLimit)
    (hz : Gzip.readAll z = (json, true)) :
    let r := t.coded d z
    s.passOn r = .ok json ∧
      (s.respond o r).response = r.given o (s.signed (s.handling o r json).1) ∧
      (s.respond o r).server = { s with store := (s.handling o r json).2 } := by
  intro r
  have hgood : ∀ k, s.key = some k → ∀ x, givenSignature r.headers = some x →
      k.verify json x = .ok () := by
    intro k hk x hx
    rw [givenSignature_coded hd, Option.map_eq_some_iff] at hx
    obtain ⟨k', hk', rfl⟩ := hx
    rw [SigningKey.verify_sign_of, if_pos (hagree k k' hk hk')]
  have hreaching : r.reaching? = some ⟨json, true⟩ := reaching?_coded hd hlength hz
  have hvet : s.vet r ⟨json, true⟩ = .ok json := vet_of_good (collect_whole hlength) hgood
  obtain ⟨hresponse, hserver⟩ := s.respond_reaching o hreaching
  rw [signing_of_vet_ok hvet] at hresponse hserver
  exact ⟨(s.passOn_reaching hreaching).trans hvet, hresponse, hserver⟩

/-! ### Any keys -/

/-- **Agents and servers agree on what is signed.** Whatever secrets they are given, a document
that is no longer than a body may be, compressed in any way, reaches the call that it is meant for
byte for byte; unless both secrets make keys and these give it different hashes, in which case it
is refused and nothing is stored. -/
theorem documents_agreed_on {a b : Option String} (ht : t.key = SigningKey.ofSecret a)
    (hs : s.key = SigningKey.ofSecret b) (hd : d.document? = some (c, json))
    (hlength : json.length ≤ bodyLimit) (hz : Gzip.readAll z = (json, true)) :
    let r := t.coded d z
    let differ := ∃ x y, a = some x ∧ b = some y ∧ x ≠ "" ∧ y ≠ "" ∧
      Hmac.sha256 (Bytes.ofText x) json ≠ Hmac.sha256 (Bytes.ofText y) json
    (differ → (s.respond o r).response.status = 400 ∧ (s.respond o r).server = s ∧
      (s.respond o r).response = r.given o (some (badSignature o.trace .mismatch))) ∧
    (¬ differ → s.passOn r = .ok json ∧
      (s.respond o r).response = r.given o (s.signed (s.handling o r json).1) ∧
      (s.respond o r).server = { s with store := (s.handling o r json).2 } ∧
      (t.base.IsRoot → s.handling o r json
        = answer s.store s.askable (some (s.deadline o)) o.trace json c)) := by
  intro r differ
  constructor
  · rintro ⟨x, y, ha, hb, hx, hy, hdiffer⟩
    rw [SigningKey.ofSecret_eq_some.mpr ⟨x, ha, hx, rfl⟩] at ht
    rw [SigningKey.ofSecret_eq_some.mpr ⟨y, hb, hy, rfl⟩] at hs
    obtain ⟨hresponse, hserver⟩ := respond_differing o hs ht hdiffer hd hlength hz
    refine ⟨?_, hserver, hresponse⟩
    rw [hresponse, Request.status_given]
    rfl
  · intro hagree
    have hsame : ∀ k k', s.key = some k → t.key = some k' →
        Hmac.sha256 k'.secret json = Hmac.sha256 k.secret json := by
      intro k k' hk hk'
      obtain ⟨y, hb, hy, rfl⟩ := SigningKey.ofSecret_eq_some.mp (hs.symm.trans hk)
      obtain ⟨x, ha, hx, rfl⟩ := SigningKey.ofSecret_eq_some.mp (ht.symm.trans hk')
      by_contra hdiffer
      exact hagree ⟨x, y, ha, hb, hx, hy, hdiffer⟩
    obtain ⟨hpassed, hresponse, hserver⟩ := respond_agreeing o hsame hd hlength hz
    refine ⟨hpassed, hresponse, hserver, fun hroot => ?_⟩
    obtain ⟨names, hrequest, hroute⟩ := request_of_document? (t := t) hd
    have hfound : route r.method (targetPath r.target) = .found c := by
      show route .post (targetPath (t.request d).target) = .found c
      rw [hrequest]
      exact hroute hroot
    rw [handling, dispatch, hfound]

/-- A signature that nobody asks for does no harm: the server was given an empty secret. -/
theorem documents_agreed_on_unchecked :
    let t : Courier :=
      ⟨⟨"http", "localhost", some 8080, [""], none⟩, SigningKey.ofSecret (some "k"), ⟨[]⟩⟩
    let s : Server := { store := .memory .empty, key := SigningKey.ofSecret (some "") }
    let d : Delivery := .batch [⟨"PollCount", .counter 2⟩]
    let json := Wire.encodeAll [⟨"PollCount", .counter 2⟩]
    let o : Occasion := { trace := "" }
    s.passOn (t.request d).received = .ok json ∧ s.handling o (t.request d).received json
      = answer (.memory .empty) false (some ⟨10000, none⟩) "" json .updateMany := by
  intro t s d json o
  have hd : d.document? = some (.updateMany, json) := rfl
  have hkey : t.key = SigningKey.ofSecret (some "k") := rfl
  have hkey' : s.key = SigningKey.ofSecret (some "") := rfl
  obtain ⟨-, hagreed⟩ := documents_agreed_on o hkey hkey' hd (by decide +kernel)
    (Gzip.readAll_compress json)
  obtain ⟨hpassed, -, -, hanswer⟩ := hagreed (by
    rintro ⟨x, y, -, ⟨⟩, -, hy, -⟩
    exact hy rfl)
  have hroot : t.base.IsRoot := .inr rfl
  exact ⟨hpassed, hanswer hroot⟩

end Server

end Http
end Telemetry
