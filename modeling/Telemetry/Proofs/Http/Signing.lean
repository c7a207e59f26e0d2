import Telemetry.Proofs.Gzip.Stored
import Telemetry.Proofs.Http.Layers
import Telemetry.Proofs.Signature

/-!
# The layer of signatures

With a key, a request that brings a signature is passed on to the handler if the signature spells
the keyed hash of the body, and what the handler answers is signed before it is compressed. Two
things escape that. A header value that is no text is taken for no signature at all, so the body
that it comes with is not checked. And the two answers that the layer gives by itself, to a body
that it cannot read and to a signature that is no good, are not signed.

## Main definitions

* `Telemetry.Http.Request.reaching?` — the body with which a request reaches the layer
* `Telemetry.Http.Request.given` — what the layers around it make of a response
* `Telemetry.Http.spelled?` — what a header value spells
* `Telemetry.Http.Response.plainBody?` — a body as it was before it was compressed

## Main results

* `Telemetry.Http.Server.respond_reaching` — the layers around that of signatures
* `Telemetry.Http.Server.signatures_enforced` — which requests are passed on
* `Telemetry.Http.Server.responses_signed` — which responses are signed
-/

namespace Telemetry.Http

/-! ### Header lines -/

/-- A header that is set has its value; the others stay as they are. -/
theorem Headers.first?_set (h : Headers) (n name value : String) :
    (h.set name value).first? n = if n = name then some (Bytes.ofText value) else h.first? n := by
  rw [first?, first?, set]
  induction h with
  | nil =>
    by_cases hn : n = name
    · simp [hn]
    · have hne : (n == name) = false := by simpa using hn
      simp [List.lookup_cons, hn, hne]
  | cons line h ih =>
    obtain ⟨key, v⟩ := line
    by_cases hkey : key = name
    · rw [List.filter_cons_of_neg (by simp [hkey]), ih, hkey, List.lookup_cons]
      split
      · rfl
      · rename_i hn
        have hne : (n == name) = false := by simpa using hn
        rw [hne]
    · rw [List.filter_cons_of_pos (by simp [hkey]), List.cons_append, List.lookup_cons,
        List.lookup_cons, ih]
      split
      · rename_i hn
        have hn : n = key := eq_of_beq hn
        rw [if_neg (hn ▸ hkey)]
      · rfl

namespace Request

/-! ### What reaches the layer -/

/-- The body with which a request reaches the layer of signatures, unless a layer around it answers
by itself. -/
def reaching? (r : Request) : Option Incoming :=
  if r.method = .options then none
  else (decodeRequest r).bind fun body =>
    if r.method = .post then (body.collect bodyLimit).toOption.map (⟨·, true⟩) else some body

theorem reaching?_of_post {r : Request} (hpost : r.method = .post) {body : Bytes}
    (hbody : decodeRequest r = some ⟨body, true⟩) (hlength : body.length ≤ bodyLimit) :
    r.reaching? = some ⟨body, true⟩ := by
  rw [reaching?, hpost, if_neg Method.noConfusion, hbody, Option.bind_some, if_pos rfl,
    collect_whole hlength]
  rfl

/-- The response that a client is given when this is what the layer of signatures answers, if it
answers in time. -/
def given (r : Request) (o : Occasion) (response : Option Response) : Response :=
  let whole :=
    (match response with
      | none => Response.empty 408
      | some response => encodeResponse r.headers (tag o.trace response)).withHeader
        "access-control-allow-origin" "*"
  if r.method = .head then { whole with body := [] } else whole

theorem status_given (r : Request) (o : Occasion) (response : Response) :
    (r.given o (some response)).status = response.status := by
  rw [given]
  split_ifs
  · exact status_encodeResponse r.headers _
  · exact status_encodeResponse r.headers _

end Request

theorem ne_options_of_reaching {r : Request} {body : Incoming} (h : r.reaching? = some body) :
    r.method ≠ .options := by
  intro hoptions
  rw [Request.reaching?, if_pos hoptions] at h
  cases h

namespace Server

variable (s : Server) (o : Occasion) {r : Request}

theorem logging_reaching {body incoming : Incoming} (hbody : decodeRequest r = some incoming)
    (h : r.reaching? = some body) :
    ∃ shown, s.logging o r incoming = s.logged o r shown body := by
  rw [Request.reaching?, hbody, Option.bind_some] at h
  rw [logging]
  split_ifs at h ⊢ with hoptions hpost
  · cases hcollect : incoming.collect bodyLimit with
    | error f =>
      rw [hcollect] at h
      cases h
    | ok bytes =>
      rw [hcollect] at h
      cases h
      exact ⟨bytes, rfl⟩
  · cases h
    exact ⟨[], rfl⟩

/-- **The layers around that of signatures** neither change what it does to the store nor what is
answered, but for the coding of the body and some headers. -/
theorem respond_reaching {body : Incoming} (h : r.reaching? = some body) :
    (s.respond o r).response = r.given o (s.signing o r body).1 ∧
      (s.respond o r).server = { s with store := (s.signing o r body).2 } := by
  have hoptions := ne_options_of_reaching h
  cases hincoming : decodeRequest r with
  | none =>
    rw [Request.reaching?, if_neg hoptions, hincoming] at h
    cases h
  | some incoming =>
    obtain ⟨shown, hlogging⟩ := s.logging_reaching o hincoming h
    rw [respond, if_neg hoptions, timed, hincoming]
    simp only [hlogging, logged]
    rcases s.signing o r body with ⟨_ | response, b⟩
    · exact ⟨rfl, rfl⟩
    · exact ⟨rfl, rfl⟩

theorem passOn_reaching {body : Incoming} (h : r.reaching? = some body) :
    s.passOn r = s.vet r body := by
  have hoptions := ne_options_of_reaching h
  rw [Request.reaching?, if_neg hoptions] at h
  obtain ⟨incoming, hincoming, h⟩ := Option.bind_eq_some_iff.mp h
  rw [passOn, if_neg hoptions, hincoming]
  dsimp only
  split_ifs at h ⊢ with hpost
  · cases hcollect : incoming.collect bodyLimit with
    | error f =>
      rw [hcollect] at h
      cases h
    | ok bytes =>
      rw [hcollect] at h
      cases h
      rfl
  · cases h
    rfl

/-! ### What the layer does -/

/-- What the layer makes of a response of the handler. -/
def signed (s : Server) (response : Option Response) : Option Response :=
  match s.key with
  | none => response
  | some key => response.map (sign key)

variable {s} {key : SigningKey}

theorem signed_of_key (hs : s.key = some key) (response : Option Response) :
    s.signed response = response.map (sign key) := by
  rw [signed, hs]

/-- A request that is passed on is answered by the handler, and the answer is signed. -/
theorem signing_of_vet_ok {body : Incoming} {bytes : Bytes} (h : s.vet r body = .ok bytes)
    (o : Occasion) :
    s.signing o r body
      = (s.signed (s.handling o r bytes).1, (s.handling o r bytes).2) := by
  rw [vet] at h
  rw [signing, signed]
  cases hs : s.key with
  | none =>
    rw [hs] at h
    cases h
    rfl
  | some key =>
    rw [hs] at h
    dsimp only at h ⊢
    cases hcollect : body.collect bodyLimit with
    | error f =>
      rw [hcollect] at h
      cases h
    | ok collected =>
      rw [hcollect] at h
      dsimp only at h ⊢
      rcases hgiven : (givenSignature r.headers).map (key.verify collected) with _ | ⟨f | ⟨⟩⟩ <;>
        rw [hgiven] at h <;> cases h <;> rfl

/-- Any other request is answered by the layer itself. -/
theorem signing_of_vet_error (hs : s.key = some key) {body : Incoming} {status : ℕ}
    (h : s.vet r body = .error status) (o : Occasion) :
    ∃ response, s.signing o r body = (some response, s.store) ∧
      (response = unreadableBody o.trace ∨ ∃ f, response = badSignature o.trace f) := by
  rw [vet, hs] at h
  rw [signing, hs]
  dsimp only at h ⊢
  cases hcollect : body.collect bodyLimit with
  | error f => exact ⟨_, rfl, .inl rfl⟩
  | ok collected =>
    rw [hcollect] at h
    dsimp only at h ⊢
    rcases hgiven : (givenSignature r.headers).map (key.verify collected) with _ | ⟨f | ⟨⟩⟩
    · rw [hgiven] at h
      cases h
    · exact ⟨_, rfl, .inr ⟨f, rfl⟩⟩
    · rw [hgiven] at h
      cases h

/-- A signature that is no good is answered by what is wrong with it. -/
theorem signing_of_fault (hs : s.key = some key) {body : Incoming} {bytes : Bytes}
    (hcollect : body.collect bodyLimit = .ok bytes) {x : String}
    (hgiven : givenSignature r.headers = some x) {f : SignatureFault}
    (hfault : key.verify bytes x = .error f) (o : Occasion) :
    s.signing o r body = (some (badSignature o.trace f), s.store) := by
  rw [signing, hs]
  simp only [hcollect, hgiven, Option.map_some, hfault]

end Server

/-! ### Which requests are passed on -/

/-- The bytes that a header value spells in hexadecimal digits, without the blanks around them. -/
def spelled? (v : Bytes) : Option Bytes :=
  (Bytes.text? v).bind fun text => (Hex.decode (Bytes.ofText (Text.trim text))).toOption

/-- A header value that may be text is one. -/
theorem text?_of_isTextByte {v : Bytes} (h : v.all isTextByte = true) :
    ∃ text, Bytes.text? v = some text := by
  have hlow : ∀ x ∈ v, x.toNat < 128 := by
    intro x hx
    have htext := List.all_eq_true.mp h x hx
    simp only [isTextByte, Bool.or_eq_true, Bool.and_eq_true, decide_eq_true_eq, beq_iff_eq,
      UInt8.lt_iff_toNat_lt] at htext
    rcases htext with ⟨-, hvisible⟩ | rfl
    · exact Nat.lt_trans hvisible (by decide)
    · decide
  have hchar : ∀ x ∈ v, (Char.ofNat x.toNat).toNat = x.toNat := by
    intro x hx
    have hvalid : x.toNat.isValidChar := .inl (Nat.lt_trans (hlow x hx) (by decide))
    rw [Char.ofNat, dif_pos hvalid]
    rfl
  refine ⟨String.ofList (v.map fun x => Char.ofNat x.toNat), ?_⟩
  have hbytes : Bytes.ofText (String.ofList (v.map fun x => Char.ofNat x.toNat)) = v := by
    rw [Bytes.ofText_ofList_ascii, Bytes.ascii, List.map_map]
    · refine (List.map_congr_left fun x hx => ?_).trans (List.map_id v)
      show UInt8.ofNat (Char.ofNat x.toNat).toNat = x
      rw [hchar x hx, UInt8.ofNat_toNat]
    · intro c hc
      obtain ⟨x, hx, rfl⟩ := List.mem_map.mp hc
      rw [hchar x hx]
      exact hlow x hx
  rw [← Bytes.text?_ofText, hbytes]

/-- A signature comes with a request if the value of its header is text; whether it spells
anything is not asked yet. -/
theorem givenSignature_of_first? {h : Headers} {v : Bytes}
    (hv : h.first? (headerName SigningKey.header) = some v) (hne : v ≠ []) :
    givenSignature h = if v.all isTextByte = true then Bytes.text? v else none := by
  rw [givenSignature, hv, Option.bind_some, valueText?]
  split_ifs with htext
  · obtain ⟨text, hread⟩ := text?_of_isTextByte htext
    rw [hread, Option.filter_some, if_pos]
    rw [decide_eq_true_iff]
    rintro rfl
    exact hne (Bytes.ofText_of_text? hread).symm
  · rfl

/-- A signature is good if the value that it is read from spells the keyed hash. -/
theorem verify_eq_ok_iff_spelled? {key : SigningKey} {body v : Bytes} {text : String}
    (hread : Bytes.text? v = some text) :
    key.verify body text = .ok () ↔ spelled? v = some (Hmac.sha256 key.secret body) := by
  rw [SigningKey.verify_eq_ok, spelled?, hread, Option.bind_some]
  cases Hex.decode (Bytes.ofText (Text.trim text)) with
  | error f => exact iff_of_false nofun nofun
  | ok bytes =>
    exact Iff.intro (fun h => congrArg Except.toOption h)
      (fun h => congrArg Except.ok (Option.some.inj h))

namespace Server

variable {s : Server} (o : Occasion) {r : Request} {key : SigningKey}

/-- **Which requests are passed on.** If the first signature that comes with a request is not
empty, its body reaches the handler if the signature spells the keyed hash of it, and also if the
signature is no text. Any other request is refused, and the store is not touched. -/
theorem signatures_enforced (hs : s.key = some key) {body : Bytes}
    (hr : r.reaching? = some ⟨body, true⟩) (hlength : body.length ≤ bodyLimit) {v : Bytes}
    (hv : r.headers.first? (headerName SigningKey.header) = some v) (hne : v ≠ []) :
    let refused := v.all isTextByte = true ∧ spelled? v ≠ some (Hmac.sha256 key.secret body)
    (refused → (s.respond o r).response.status = 400 ∧ (s.respond o r).server = s ∧
      ∃ f, (s.respond o r).response = r.given o (some (badSignature o.trace f))) ∧
    (¬ refused →
      (s.respond o r).response = r.given o ((s.handling o r body).1.map (sign key)) ∧
        (s.respond o r).server = { s with store := (s.handling o r body).2 }) := by
  intro refused
  have hcollect : Incoming.collect ⟨body, true⟩ bodyLimit = .ok body := collect_whole hlength
  have hgiven := givenSignature_of_first? hv hne
  obtain ⟨hresponse, hserver⟩ := s.respond_reaching o hr
  constructor
  · rintro ⟨htext, hspelled⟩
    obtain ⟨text, hread⟩ := text?_of_isTextByte htext
    rw [if_pos htext, hread] at hgiven
    cases hverify : key.verify body text with
    | ok u => exact absurd ((verify_eq_ok_iff_spelled? hread).mp hverify) hspelled
    | error f =>
      rw [signing_of_fault hs hcollect hgiven hverify] at hresponse hserver
      refine ⟨?_, hserver, f, hresponse⟩
      rw [hresponse, Request.status_given]
      rfl
  · intro hpassed
    have hgood : ∀ k, s.key = some k → ∀ x, givenSignature r.headers = some x →
        k.verify body x = .ok () := by
      intro k hk x hx
      cases hs.symm.trans hk
      rw [hgiven] at hx
      split_ifs at hx with htext
      exact (verify_eq_ok_iff_spelled? hx).mpr (not_not.mp fun h => hpassed ⟨htext, h⟩)
    rw [signing_of_vet_ok (vet_of_good hcollect hgood), signed_of_key hs] at hresponse hserver
    exact ⟨hresponse, hserver⟩

/-- A signature that spells one byte is refused. -/
theorem signatures_enforced_forged :
    let s : Server := { store := .memory .empty, key := some ⟨[107]⟩ }
    let r : Request := ⟨.post, "/update/counter/a/1", [("hashsha256", [48, 48])], [120]⟩
    let reply := s.respond { trace := "" } r
    reply.response.status = 400 ∧ reply.server = s := by
  intro s r reply
  have hreaching : r.reaching? = some ⟨[120], true⟩ := by decide +kernel
  have hvalue : r.headers.first? (headerName SigningKey.header) = some [48, 48] := by
    decide +kernel
  have hspelled : spelled? [48, 48] ≠ some (Hmac.sha256 [107] [120]) := by
    rw [show spelled? [48, 48] = some [0] by decide +kernel]
    intro hbytes
    have hlength := congrArg List.length (Option.some.inj hbytes)
    rw [Hmac.length_sha256] at hlength
    exact absurd hlength (by decide)
  have hkey : s.key = some ⟨[107]⟩ := rfl
  have henforced :=
    signatures_enforced { trace := "" } hkey hreaching (by decide) hvalue (by decide)
  obtain ⟨hstatus, hserver, -⟩ := henforced.1 ⟨by decide, hspelled⟩
  exact ⟨hstatus, hserver⟩

/-- **A signature that spells nothing may be passed on.** One byte that is no text stands in place
of a signature, and the counter is counted all the same. -/
theorem signature_not_enforced :
    ¬ ∀ (s : Server) (o : Occasion) (r : Request) (key : SigningKey) (body v : Bytes),
      s.key = some key → r.reaching? = some ⟨body, true⟩ → body.length ≤ bodyLimit →
      r.headers.first? (headerName SigningKey.header) = some v → v ≠ [] →
      spelled? v ≠ some (Hmac.sha256 key.secret body) →
      (s.respond o r).response.status = 400 ∧ (s.respond o r).server = s := by
  intro h
  let s : Server := { store := .memory .empty, key := some ⟨[107]⟩ }
  let r : Request := ⟨.post, "/update/counter/a/1", [("hashsha256", [255])], []⟩
  have hspelled : spelled? [255] ≠ some (Hmac.sha256 [107] []) := by
    rw [show spelled? [255] = none by decide +kernel]
    exact nofun
  obtain ⟨hstatus, -⟩ := h s { trace := "" } r ⟨[107]⟩ [] [255] rfl (by decide +kernel) (by decide)
    (by decide +kernel) (by decide) hspelled
  have hpassed : s.passOn r = .ok [] := by decide +kernel
  rw [(respond_passedOn { trace := "" } hpassed).1] at hstatus
  exact absurd hstatus (by decide +kernel)

end Server

/-! ### Responses that are not compressed yet -/

namespace Response

/-- The response is as its handler made it, and not compressed. -/
def Uncoded (response : Response) : Prop :=
  response.headers.first? "content-encoding" = none

/-- The body of a response as it was before it was compressed, if it can be had. -/
def plainBody? (response : Response) : Option Bytes :=
  if response.headers.first? "content-encoding" = some (Bytes.ofText "gzip") then
    Gzip.decompress? response.body
  else some response.body

theorem plainBody?_withHeader (response : Response) {name : String} (value : String)
    (hname : name ≠ "content-encoding") :
    (response.withHeader name value).plainBody? = response.plainBody? := by
  have hfirst : (response.headers.set name value).first? "content-encoding"
      = response.headers.first? "content-encoding" := by
    rw [Headers.first?_set, if_neg hname.symm]
  rw [plainBody?, plainBody?, withHeader, hfirst]

/-- A body that is left as it is or compressed can be had again, by whatever encoder. -/
theorem plainBody?_encodeResponse (h : Headers) {response : Response} (hplain : response.Uncoded)
    {compress : Bytes → Bytes} (hcompress : ∀ b, Gzip.decompress? (compress b) = some b) :
    (encodeResponse h response compress).plainBody? = some response.body := by
  rw [encodeResponse]
  split_ifs
  · have hcoded : (response.headers.set "content-encoding" "gzip").first? "content-encoding"
        = some (Bytes.ofText "gzip") := by
      rw [Headers.first?_set, if_pos rfl]
    rw [plainBody?, withHeader, if_pos hcoded]
    exact hcompress response.body
  · have hnone : response.headers.first? "content-encoding" ≠ some (Bytes.ofText "gzip") := by
      rw [hplain]
      exact (Option.some_ne_none _).symm
    rw [plainBody?, if_neg hnone]

theorem uncoded_empty (status : ℕ) : (empty status).Uncoded := rfl

theorem uncoded_typed (status : ℕ) (type : String) (body : Bytes) :
    (typed status type body).Uncoded := by
  simp [Uncoded, typed, Headers.first?, List.lookup_cons]

end Response

section

variable {b : Store} {askable : Bool} {deadline : Option Deadline} {trace : String} {body : Bytes}
  {response : Response}

theorem uncoded_conclude {α : Type} {f : Store.Finished α} {good : α → Response}
    {bad : StoreError → Response} (hgood : ∀ a, (good a).Uncoded) (hbad : ∀ e, (bad e).Uncoded)
    (h : (conclude f good bad).1 = some response) : response.Uncoded := by
  obtain ⟨(e | a) | _, c⟩ := f <;> cases h
  · exact hbad e
  · exact hgood a

theorem uncoded_storeFailure (e : StoreError) : (storeFailure trace e).Uncoded := by
  cases e <;> exact Response.uncoded_typed _ _ _

theorem uncoded_plainStoreFailure (e : StoreError) : (plainStoreFailure e).Uncoded := by
  cases e <;> exact Response.uncoded_typed _ _ _

theorem uncoded_withDocument {use : Bytes → Answer}
    (huse : (use body).1 = some response → response.Uncoded)
    (h : (withDocument body b use).1 = some response) : response.Uncoded := by
  rw [withDocument] at h
  split_ifs at h
  · exact huse h
  · cases h
    exact Response.uncoded_typed _ _ _

theorem uncoded_checked {δ α : Type} {document : Except (Json.Fault Empty) δ}
    {check : δ → Except Refusal α} (h : checked trace document check = .error response) :
    response.Uncoded := by
  rcases checked_error h with ⟨f, rfl⟩ | ⟨e, rfl⟩ <;> exact Response.uncoded_typed _ _ _

theorem uncoded_updateByPath {type id raw : String}
    (h : (updateByPath b deadline type id raw).1 = some response) : response.Uncoded := by
  rw [updateByPath] at h
  split at h
  · cases h
    exact Response.uncoded_typed _ _ _
  · split at h
    · cases h
      exact Response.uncoded_typed _ _ _
    · exact uncoded_conclude (fun _ => Response.uncoded_empty 200) uncoded_plainStoreFailure h

theorem uncoded_valueByPath {type id : String}
    (h : (valueByPath b deadline type id).1 = some response) : response.Uncoded := by
  rw [valueByPath] at h
  split at h
  · cases h
    exact Response.uncoded_typed _ _ _
  · refine uncoded_conclude (fun found => ?_) uncoded_plainStoreFailure h
    cases found <;> exact Response.uncoded_typed _ _ _

theorem uncoded_ping (h : (ping b askable).1 = some response) : response.Uncoded := by
  rw [ping.eq_def] at h
  split at h
  · split at h <;> cases h <;> exact Response.uncoded_typed _ _ _
  · cases h
    exact Response.uncoded_typed _ _ _

/-- The response to a call is not compressed by its handler. -/
theorem uncoded_answer {c : Call} (h : (answer b askable deadline trace body c).1 = some response) :
    response.Uncoded := by
  cases c with
  | index =>
    exact uncoded_conclude (fun _ => Response.uncoded_typed _ _ _) uncoded_plainStoreFailure h
  | ping => exact uncoded_ping h
  | updateOne =>
    refine uncoded_withDocument (fun h => ?_) h
    rw [updateOne] at h
    split at h
    · rename_i hread
      cases h
      exact uncoded_checked hread
    · exact uncoded_conclude (fun _ => Response.uncoded_typed _ _ _) uncoded_storeFailure h
  | updateMany =>
    refine uncoded_withDocument (fun h => ?_) h
    rw [updateMany] at h
    split at h
    · rename_i hread
      cases h
      exact uncoded_checked hread
    · exact uncoded_conclude (fun _ => Response.uncoded_typed _ _ _) uncoded_storeFailure h
  | value =>
    refine uncoded_withDocument (fun h => ?_) h
    rw [value] at h
    split at h
    · rename_i hread
      cases h
      exact uncoded_checked hread
    · refine uncoded_conclude (fun found => ?_) uncoded_storeFailure h
      cases found <;> exact Response.uncoded_typed _ _ _
  | updateByPath type id raw => exact uncoded_updateByPath h
  | valueByPath type id => exact uncoded_valueByPath h

/-- **No handler compresses its response.** -/
theorem uncoded_dispatch {m : Method} {path : String}
    (h : (dispatch b askable deadline trace m path body).1 = some response) :
    response.Uncoded := by
  rw [dispatch] at h
  split at h
  · exact uncoded_answer h
  · cases h
    exact Response.uncoded_typed _ _ _
  · cases h
    simp [Response.Uncoded, Response.withHeader, Response.empty, Headers.first?, Headers.set,
      List.lookup_cons]
  · cases h
    exact Response.uncoded_empty 404

end

/-! ### Which responses are signed -/

namespace Request

variable (r : Request) (o : Occasion)

/-- The layers around that of signatures leave the headers that are none of theirs. -/
theorem first?_given {name : String} (response : Response)
    (hname : name ∉ ["access-control-allow-origin", "content-encoding", "x-trace-id"]) :
    (r.given o (some response)).headers.first? name = response.headers.first? name := by
  simp only [List.mem_cons, List.not_mem_nil, or_false, not_or] at hname
  obtain ⟨horigin, hcoding, htrace⟩ := hname
  have htagged : (tag o.trace response).headers.first? name = response.headers.first? name := by
    rw [tag, Response.withHeader, Headers.first?_set, if_neg htrace]
  have hencoded : (encodeResponse r.headers (tag o.trace response)).headers.first? name
      = response.headers.first? name := by
    rw [encodeResponse]
    split_ifs
    · exact (Headers.first?_set _ _ _ _).trans ((if_neg hcoding).trans htagged)
    · exact htagged
  rw [given]
  split_ifs
  · exact (Headers.first?_set _ _ _ _).trans ((if_neg horigin).trans hencoded)
  · exact (Headers.first?_set _ _ _ _).trans ((if_neg horigin).trans hencoded)

/-- The layers around that of signatures leave the header of signatures. -/
theorem signature_given (response : Response) :
    (r.given o (some response)).headers.first? (headerName SigningKey.header)
      = response.headers.first? (headerName SigningKey.header) := by
  refine r.first?_given o response ?_
  rw [SigningKey.headerName_header]
  decide

/-- A client gets the body that a response had before it was compressed. -/
theorem plainBody?_given (hr : r.method ≠ .head) {response : Response} (h : response.Uncoded) :
    (r.given o (some response)).plainBody? = some response.body := by
  have htagged : (tag o.trace response).Uncoded := by
    rw [Response.Uncoded, tag, Response.withHeader, Headers.first?_set, if_neg (by decide)]
    exact h
  rw [given, if_neg hr]
  exact (Response.plainBody?_withHeader _ _ (by decide)).trans
    (Response.plainBody?_encodeResponse r.headers htagged Gzip.decompress?_compress)

end Request

namespace Server

variable {s : Server} (o : Occasion) {r : Request} {key : SigningKey}

/-- A request that is not passed on is refused with a response that is not signed. -/
theorem respond_rejected (hs : s.key = some key) {incoming : Incoming}
    (hr : r.reaching? = some incoming) {status : ℕ} (hvet : s.vet r incoming = .error status) :
    let response := (s.respond o r).response
    response.status = 400 ∧ response.headers.first? (headerName SigningKey.header) = none ∧
      (s.respond o r).server = s := by
  intro response
  obtain ⟨hresponse, hserver⟩ := s.respond_reaching o hr
  obtain ⟨own, hsigning, hown⟩ := signing_of_vet_error hs hvet o
  rw [hsigning] at hresponse hserver
  replace hresponse : response = r.given o (some own) := hresponse
  have hunsigned : own.status = 400 ∧
      own.headers.first? (headerName SigningKey.header) = none := by
    rw [SigningKey.headerName_header]
    rcases hown with rfl | ⟨f, rfl⟩ <;> exact ⟨rfl, rfl⟩
  rw [hresponse, Request.status_given, Request.signature_given]
  exact ⟨hunsigned.1, hunsigned.2, hserver⟩

/-- The response of a handler is signed over the body that it had before it was compressed. -/
theorem respond_made (hs : s.key = some key) {incoming : Incoming}
    (hr : r.reaching? = some incoming) {body : Bytes} (hvet : s.vet r incoming = .ok body)
    {made : Response} (hmade : (s.handling o r body).1 = some made) :
    let response := (s.respond o r).response
    response.status = made.status ∧
      response.headers.first? (headerName SigningKey.header)
        = some (Bytes.ofText (key.sign made.body)) ∧
      (r.method ≠ .head → response.plainBody? = some made.body) := by
  intro response
  obtain ⟨hresponse, -⟩ := s.respond_reaching o hr
  rw [signing_of_vet_ok hvet, signed_of_key hs, hmade, Option.map_some] at hresponse
  replace hresponse : response = r.given o (some (sign key made)) := hresponse
  rw [hresponse, Request.status_given, Request.signature_given]
  refine ⟨rfl, ?_, fun hhead => ?_⟩
  · rw [sign, Response.withHeader, Headers.first?_set, if_pos rfl]
  · have hsigned : (sign key made).Uncoded := by
      rw [Response.Uncoded, sign, Response.withHeader, Headers.first?_set,
        SigningKey.headerName_header, if_neg (by decide)]
      exact uncoded_dispatch hmade
    rw [r.plainBody?_given o hhead hsigned]
    rfl

/-- What is answered when a handler does not finish in time is not signed. -/
theorem respond_late (hs : s.key = some key) {incoming : Incoming}
    (hr : r.reaching? = some incoming) {body : Bytes} (hvet : s.vet r incoming = .ok body)
    (hlate : (s.handling o r body).1 = none) :
    let response := (s.respond o r).response
    response.status = 408 ∧ response.headers.first? (headerName SigningKey.header) = none := by
  intro response
  obtain ⟨hresponse, -⟩ := s.respond_reaching o hr
  have hgiven : r.given o none
      = (Response.empty 408).withHeader "access-control-allow-origin" "*" := by
    rw [Request.given]
    split_ifs <;> rfl
  rw [signing_of_vet_ok hvet, signed_of_key hs, hlate, Option.map_none, hgiven] at hresponse
  rw [show response = _ from hresponse, SigningKey.headerName_header]
  exact ⟨rfl, rfl⟩

/-- **Which responses are signed.** If a request is passed on, the response of its handler is
signed, wherever the request leads and whatever has failed, over the body that it had before it was
compressed; no response is made in its place unless it comes too late. If the body cannot be read
or its signature is not good, the request is refused with a response that is not signed. -/
theorem responses_signed (hs : s.key = some key) {incoming : Incoming}
    (hr : r.reaching? = some incoming) :
    let response := (s.respond o r).response
    let signature? := response.headers.first? (headerName SigningKey.header)
    match s.passOn r with
    | .ok body =>
      match (s.handling o r body).1 with
      | some made =>
        response.status = made.status ∧ signature? = some (Bytes.ofText (key.sign made.body)) ∧
          (r.method ≠ .head → response.plainBody? = some made.body)
      | none => response.status = 408 ∧ signature? = none
    | .error status =>
      status = 400 ∧ response.status = 400 ∧ signature? = none ∧ (s.respond o r).server = s := by
  intro response signature?
  rw [s.passOn_reaching hr]
  cases hvet : s.vet r incoming with
  | error status => exact ⟨status_of_vet hvet, respond_rejected o hs hr hvet⟩
  | ok body =>
    dsimp only
    cases hmade : (s.handling o r body).1 with
    | some made => exact respond_made o hs hr hvet hmade
    | none => exact respond_late o hs hr hvet hmade

/-- The answer to a path that leads nowhere is signed. -/
theorem responses_signed_nowhere :
    let s : Server := { store := .memory .empty, key := some ⟨[107]⟩ }
    let response := (s.respond { trace := "" } ⟨.get, "/nowhere", [], []⟩).response
    response.status = 404 ∧ response.headers.first? (headerName SigningKey.header)
        = some (Bytes.ofText (SigningKey.sign ⟨[107]⟩ [])) ∧ response.plainBody? = some [] := by
  intro s response
  let r : Request := ⟨.get, "/nowhere", [], []⟩
  have hkey : s.key = some ⟨[107]⟩ := rfl
  have hreaching : r.reaching? = some ⟨[], true⟩ := by decide +kernel
  have hpassed : s.passOn r = .ok [] := by decide +kernel
  have hmade : (s.handling { trace := "" } r []).1 = some (.empty 404) := by decide +kernel
  have hsigned := responses_signed { trace := "" } hkey hreaching
  simp only [hpassed, hmade] at hsigned
  obtain ⟨hstatus, hsignature, hbody⟩ := hsigned
  exact ⟨hstatus, hsignature, hbody (by decide)⟩

/-- **A rejection is not signed.** The answer to a signature that is no good bears none itself. -/
theorem rejection_unsigned :
    ¬ ∀ (s : Server) (o : Occasion) (r : Request) (key : SigningKey) (incoming : Incoming),
      s.key = some key → r.reaching? = some incoming → r.method ≠ .head →
      ∃ body, (s.respond o r).response.plainBody? = some body ∧
        (s.respond o r).response.headers.first? (headerName SigningKey.header)
          = some (Bytes.ofText (key.sign body)) := by
  intro h
  let s : Server := { store := .memory .empty, key := some ⟨[107]⟩ }
  let r : Request := ⟨.post, "/update/counter/a/1", [("hashsha256", Bytes.ofText "zz")], []⟩
  obtain ⟨body, -, hsignature⟩ := h s { trace := "" } r ⟨[107]⟩ ⟨[], true⟩ rfl (by decide +kernel)
    (by decide)
  have hunsigned : (s.respond { trace := "" } r).response.headers.first?
      (headerName SigningKey.header) = none := by
    decide +kernel
  rw [hunsigned] at hsignature
  cases hsignature

end Server

end Telemetry.Http
