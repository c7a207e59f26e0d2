import Telemetry.Agent.Courier
import Telemetry.Proofs.Gzip.Stored
import Telemetry.Proofs.Http.Deadlines
import Telemetry.Proofs.Http.Paths
import Telemetry.Proofs.Http.Updates
import Telemetry.Proofs.Metric.Display
import Telemetry.Proofs.Metric.Wire
import Telemetry.Proofs.Signature
import Telemetry.Proofs.Store.Alike

/-!
# Deliveries to a server

A metric can be delivered as a path, as a document, or as a document that lists it alone. Each of
the three requests is taken apart by the server, through the layers, the routes and the decoders,
and what is left of it is the metric itself, to be saved. So the three deliveries do what saving
the metric does, attempt by attempt, as long as the name is one that an address keeps.

## Main definitions

* `Telemetry.Agent.Outgoing.received` — a request as a server receives it
* `Telemetry.Http.Server.repeated`, `Telemetry.Http.Server.peer` — a server that answers a courier
* `Telemetry.Agent.Courier.saveAgain` — an attempt at saving a metric, as often as it takes
* `Telemetry.Agent.Courier.EndsAs`, `Telemetry.Agent.Courier.Refused` — how a delivery ends

## Main results

* `Telemetry.Http.Server.asks?_path`, `Telemetry.Http.Server.asks?_document`,
  `Telemetry.Http.Server.asks?_batch` — what the requests of a delivery ask for
* `Telemetry.Agent.Courier.Left.attempt`, `Telemetry.Agent.Courier.endsAs_of_asks?` — one attempt,
  and a delivery as a whole
* `Telemetry.Agent.Courier.deliveries_agree` — the three deliveries
* `Telemetry.Agent.Courier.deliveries_differ` — names that an address does not keep
-/

namespace Telemetry

/-- A request as a server receives it: the client adds what it accepts. -/
def Agent.Outgoing.received (r : Agent.Outgoing) : Http.Request where
  method := .post
  target := r.target
  headers := (r.headers ++ [("accept", "*/*"), ("accept-encoding", "gzip")]).map fun line =>
    (line.1, Bytes.ofText line.2)
  body := r.body

namespace Http

open Agent (Courier Delivery Outgoing)

/-! ### What becomes of a request -/

/-- A courier takes the same answers for successes. -/
theorem isSuccess_iff (a : Agent.Answer) : a.isSuccess = true ↔ Succeeds a.status := by
  simp [Agent.Answer.isSuccess, Succeeds]

/-! ### What the requests of a delivery ask for -/

namespace Server

variable {s : Server} {t : Courier} {m : Metric}

/-- Do a server and a courier have one key, if both have one? -/
def Trusts (s : Server) (t : Courier) : Prop := ∀ k, s.key = some k → ∀ k', t.key = some k' → k' = k

/-- A document is had again from its request, however it was compressed. -/
theorem decodeRequest_coded (names : List String) {json z : Bytes}
    (hz : Gzip.readAll z = (json, true)) :
    decodeRequest { (t.document names json).received with body := z } = some ⟨json, true⟩ := by
  have hcoding : (t.document names json).received.headers.first? "content-encoding"
      = some (Bytes.ofText "gzip") := by
    simp [Courier.document, Outgoing.received, Headers.first?, List.lookup_cons]
  rw [decodeRequest, hcoding]
  simp only [if_true, hz]

theorem decodeRequest_document (names : List String) (json : Bytes) :
    decodeRequest (t.document names json).received = some ⟨json, true⟩ :=
  decodeRequest_coded names (Gzip.readAll_compress json)

/-- The signature that comes with a document is the one of the courier, if it has a key. -/
theorem givenSignature_document (names : List String) (json : Bytes) :
    givenSignature (t.document names json).received.headers
      = (t.key.map fun k => k.sign json).filter (· ≠ "") := by
  have hheader : (t.document names json).received.headers.first? (headerName SigningKey.header)
      = t.key.map fun k => Bytes.ofText (k.sign json) := by
    rw [SigningKey.headerName_header]
    cases hkey : t.key <;>
      simp [Courier.document, Outgoing.received, Headers.first?, List.lookup_cons, hkey]
  rw [givenSignature, hheader]
  cases t.key with
  | none => rfl
  | some k => simp [SigningKey.valueText?_sign]

/-- A body whose signature is good, if it comes with one, is passed on. -/
theorem passOn_of_good {r : Request} (hpost : r.method = .post) {body : Bytes}
    (hbody : decodeRequest r = some ⟨body, true⟩) (hlength : body.length ≤ bodyLimit)
    (hgood : ∀ k, s.key = some k → ∀ x, givenSignature r.headers = some x →
      k.verify body x = .ok ()) : s.passOn r = .ok body := by
  have hcollect : Incoming.collect ⟨body, true⟩ bodyLimit = .ok body := collect_whole hlength
  rw [passOn, hpost, if_neg (by decide), hbody]
  simp only [if_true, hcollect]
  exact vet_of_good hcollect hgood

/-- **A document reaches the handler as it was written.** -/
theorem passOn_document (hkey : s.Trusts t) (names : List String) {json : Bytes}
    (hlength : json.length ≤ bodyLimit) :
    s.passOn (t.document names json).received = .ok json := by
  refine passOn_of_good rfl (decodeRequest_document names json) hlength fun k hk x hx => ?_
  rw [givenSignature_document, Option.filter_eq_some_iff, Option.map_eq_some_iff] at hx
  obtain ⟨⟨k', hk', rfl⟩, -⟩ := hx
  rw [hkey k hk k' hk']
  exact k.verify_sign json

theorem decodeRequest_path (t : Courier) (m : Metric) :
    decodeRequest (t.request (.path m)).received = some ⟨[], true⟩ := by
  have hnone : (t.request (.path m)).received.headers.first? "content-encoding" = none := by
    simp [Courier.request, Outgoing.received, Headers.first?, List.lookup_cons]
  rw [decodeRequest, hnone]
  rfl

theorem passOn_path (s : Server) (t : Courier) (m : Metric) :
    s.passOn (t.request (.path m)).received = .ok [] := by
  have hsignature : givenSignature (t.request (.path m)).received.headers = none := by
    rw [givenSignature, SigningKey.headerName_header]
    simp [Courier.request, Outgoing.received, Headers.first?, List.lookup_cons]
  refine passOn_of_good rfl (decodeRequest_path t m) (Nat.zero_le _) fun k _ x hx => ?_
  rw [hsignature] at hx
  cases hx

/-! ### What the requests ask for -/

/-- What is asked for by a request that is passed on to a route. -/
theorem asks?_of_route {r : Request} {body : Bytes} (hpassed : s.passOn r = .ok body) {c : Call}
    (hroute : route r.method (targetPath r.target) = .found c) : s.asks? r = c.asks? body := by
  rw [asks?, hpassed]
  exact Request.asksWith?_of_found hroute body

theorem asks?_document (hkey : s.Trusts t) (ht : t.base.IsRoot) (hm : m.ReadsAs m)
    (hlength : (Wire.encode m).length ≤ documentLimit) :
    s.asks? (t.request (.document m)).received = some (.save m) := by
  have hpassed : s.passOn (t.request (.document m)).received = .ok (Wire.encode m) :=
    passOn_document hkey _ (hlength.trans (by decide))
  rw [asks?_of_route hpassed (route_updateOne ht), Call.asks?, if_pos hlength, Call.metrics?,
    Wire.decodeDraft_encode hm]
  simp only [Metric.metric?_draft hm.isSound]
  rfl

theorem asks?_batch (hkey : s.Trusts t) (ht : t.base.IsRoot) (hm : m.ReadsAs m)
    (hlength : (Wire.encodeAll [m]).length ≤ documentLimit) :
    s.asks? (t.request (.batch [m])).received = some (.saveAll [m]) := by
  have hpassed : s.passOn (t.request (.batch [m])).received = .ok (Wire.encodeAll [m]) :=
    passOn_document hkey _ (hlength.trans (by decide))
  rw [asks?_of_route hpassed (route_updateMany ht), Call.asks?, if_pos hlength, Call.metrics?,
    Wire.encodeAll, Wire.decodeDrafts_encodeList .compact (.cons hm .nil)]
  simp only [List.map_cons, List.map_nil, List.mapM_cons, List.mapM_nil,
    Metric.metric?_draft hm.isSound]
  rfl

/-- The text of a finite value is a name that an address keeps. -/
theorem keeps_display_of_isFinite {v : Value} (hfinite : v.isFinite = true) :
    Url.Keeps v.display ∧ v.display ≠ "" := by
  have hread := Value.read_display hfinite
  have hne : ∀ s ∈ [".", "..", ""], v.display ≠ s := by
    intro s hs hdisplay
    rw [hdisplay] at hread
    have hrefused : ∀ k, ∀ s ∈ [".", "..", ""], ∃ e, Value.read k s = .error e := by
      intro k s hs
      simp only [List.mem_cons, List.not_mem_nil, or_false] at hs
      rcases hs with rfl | rfl | rfl <;> cases k <;> exact ⟨_, rfl⟩
    obtain ⟨e, he⟩ := hrefused v.kind s hs
    rw [he] at hread
    cases hread
  refine ⟨⟨hne "." (by decide), hne ".." (by decide), fun c hc => ?_⟩, hne "" (by decide)⟩
  rcases Value.mem_display hfinite hc with hdigit | rfl | rfl
  · refine ⟨?_, ?_, ?_⟩ <;> rintro rfl <;> exact absurd hdigit (by decide)
  · decide
  · decide

/-- So is the text of any value. -/
theorem keeps_display (v : Value) : Url.Keeps v.display ∧ v.display ≠ "" := by
  by_cases hfinite : v.isFinite = true
  · exact keeps_display_of_isFinite hfinite
  · obtain x | n := v
    · have hkept : ∀ s ∈ ["NaN", "-inf", "inf"], Url.Keeps s ∧ s ≠ "" := by decide
      exact hkept _ (Binary64.display_of_not_isFinite (Bool.not_eq_true _ ▸ hfinite))
    · exact absurd rfl hfinite

theorem keeps_word (k : Kind) : Url.Keeps k.word := by
  cases k <;> decide

/-- A path asks for the metric whose name is what an address keeps. -/
theorem asks?_path (s : Server) (ht : t.base.IsRoot) (hfinite : m.value.isFinite = true)
    {kept : String} (hkept : Url.kept? m.id = some kept) :
    s.asks? (t.request (.path m)).received = some (.save ⟨kept, m.value⟩) := by
  obtain ⟨hdisplay, hempty⟩ := keeps_display m.value
  have hroute := route_updateByPath ht (keeps_word m.kind) hdisplay hempty hkept
  have hread : Value.read m.kind m.value.display = .ok m.value := Value.read_display hfinite
  rw [asks?_of_route (passOn_path s t m) hroute, Call.asks?, Call.metrics?,
    Draft.key?_word (Url.ne_empty_of_kept? hkept)]
  simp only [Except.toOption, bind, Option.bind_some, hread]
  rfl

/-- **A path that leads nowhere** is answered with status 404. -/
theorem respond_dropped (s : Server) (o : Occasion) (ht : t.base.IsRoot)
    (hkept : Url.kept? m.id = none) :
    (s.respond o (t.request (.path m)).received).response.status = 404 ∧
      (s.respond o (t.request (.path m)).received).server = s := by
  obtain ⟨hdisplay, hempty⟩ := keeps_display m.value
  obtain ⟨response, hstatus, hhandling⟩ : ∃ response : Response, response.status = 404 ∧
      s.handling o (t.request (.path m)).received [] = (some response, s.store) := by
    have hpost : (t.request (.path m)).received.method = .post := rfl
    rw [handling, dispatch, hpost]
    rcases route_dropped ht (keeps_word m.kind) hdisplay hempty hkept with hroute | hroute
    · rw [show route .post (targetPath (t.request (.path m)).received.target) = _ from hroute]
      exact ⟨_, rfl, rfl⟩
    · rw [show route .post (targetPath (t.request (.path m)).received.target) = _ from hroute]
      exact ⟨_, rfl, rfl⟩
  obtain ⟨hseen, hserver⟩ := respond_passedOn o (passOn_path s t m)
  rw [hseen, hserver, hhandling]
  exact ⟨hstatus, rfl⟩

/-! ### One attempt -/

/-- A request that asks the store to save something is an update. -/
theorem isUpdate_of_asks? {r : Request} {q : Telemetry.Call} (h : s.asks? r = some q) :
    r.isUpdate = true := by
  obtain ⟨body, -, hasks⟩ := Option.bind_eq_some_iff.mp h
  rcases dispatch_cases s.store s.askable none "" r body with ⟨_, -, -, hnone⟩ | ⟨c, hc, -, hcall⟩
  · rw [hasks] at hnone
    cases hnone
  · rw [← hc]
    exact Call.isUpdate_of_asks? (hcall.symm.trans hasks)

/-- What a request asks of the store is what becomes of it. -/
theorem respond_asked {r : Request} {q : Telemetry.Call} (h : s.asks? r = some q) (o : Occasion) :
    (Succeeds (s.respond o r).response.status ↔
        (s.store.respond (some (s.deadline o)) q).1.isOk = true) ∧
      (s.respond o r).server = { s with store := (s.store.respond (some (s.deadline o)) q).2 } := by
  obtain ⟨a, hhandled, hstatus, hserver⟩ := s.respond_update o (isUpdate_of_asks? h)
  rw [h] at hhandled
  replace hstatus : (s.respond o r).response.status = a.status := hstatus
  rw [hstatus, hserver, hhandled.left]
  exact ⟨hhandled.succeeds_iff, rfl⟩

/-! ### All attempts -/

/-- The server after a request has come a number of times. -/
def repeated (s : Server) (o : ℕ → Occasion) (r : Request) (n : ℕ) : Server :=
  s.serve ((List.range n).map fun i => (o i, r))

theorem repeated_succ (s : Server) (o : ℕ → Occasion) (r : Request) (n : ℕ) :
    s.repeated o r (n + 1) = ((s.repeated o r n).respond (o n) r).server := by
  simp [repeated, serve, List.range_succ]

/-- The server as whoever answers a courier. Each attempt finds what those before it left. -/
def peer (s : Server) (o : ℕ → Occasion) : Agent.Peer := fun made _ r =>
  let response := ((s.repeated o r.received made).respond (o made) r.received).response
  some ⟨response.status, response.body⟩

theorem isOk_attempt (s : Server) (o : ℕ → Occasion) (r : Outgoing) (now made : ℕ) :
    (Courier.attempt (s.peer o) r now made).1.isOk = true ↔
      Succeeds ((s.repeated o r.received made).respond (o made) r.received).response.status := by
  generalize hresponse : ((s.repeated o r.received made).respond (o made) r.received).response = x
  simp only [Courier.attempt, peer, hresponse]
  rw [← isSuccess_iff ⟨x.status, x.body⟩]
  split
  · exact iff_of_true rfl ‹_›
  · exact iff_of_false Bool.false_ne_true ‹_›

end Server

end Http

namespace Agent.Courier

open Http (Server Occasion)

variable {t : Courier} {s : Server} {m : Metric} {d : Delivery}

/-- One more attempt at saving a metric in a store, and the number of attempts that were made. The
deadline is that of the server, and if the occasion cuts off a request it cuts off this. -/
def saveAgain (s : Server) (o : ℕ → Occasion) (m : Metric) (_now : ℕ) :
    Store × ℕ → Except Unit Unit × Store × ℕ
  | (b, made) =>
    let (r, b) := b.attempt (some (s.deadline (o made))) (.save m)
    (r, b, made + 1)

/-- A delivery ends as if the metric were saved, attempt by attempt, with the delays of the
courier: it is accepted if that succeeds, and it leaves what that leaves. -/
def EndsAs (t : Courier) (s : Server) (d : Delivery) (m : Metric) : Prop :=
  ∀ (start : ℕ) (o : ℕ → Occasion),
    let e := t.deliver (s.peer o) start d
    let saved := t.backoff.run (fun _ => true) (saveAgain s o m) (s.store, 0)
    accepted e = saved.ending.isOk ∧
      (s.repeated o (t.request d).received e.state).store.Alike saved.state.1

/-- A delivery is refused in every attempt and leaves no trace. -/
def Refused (t : Courier) (s : Server) (d : Delivery) : Prop :=
  ∀ (start : ℕ) (o : ℕ → Occasion),
    let e := t.deliver (s.peer o) start d
    accepted e = false ∧ s.repeated o (t.request d).received e.state = s

theorem accepted_eq (e : Ended DeliveryFault Bytes ℕ) : accepted e = e.ending.isOk := by
  rw [accepted]
  rcases e.ending with (_ | _) | _ <;> rfl

/-- After some attempts, the server is the same but for a store that holds what another one does
after as many. -/
def Left (s : Server) (o : ℕ → Occasion) (r : Outgoing) (made : ℕ) (x : Store × ℕ) : Prop :=
  x.2 = made ∧ ∃ c, s.repeated o r.received made = { s with store := c } ∧ c.Alike x.1

/-- **One more attempt** at a request that asks for a metric to be saved, and one more at saving
the metric, succeed or fail together. -/
theorem Left.attempt {o : ℕ → Occasion} {r : Outgoing} {q : Call}
    (hasks : s.asks? r.received = some q) (hq : q.Saves m) (hm : m.isSound) {made : ℕ}
    {x : Store × ℕ} (h : Left s o r made x) (now now' : ℕ) :
    let saved := saveAgain s o m now' x
    (Courier.attempt (s.peer o) r now made).1.isOk = saved.1.isOk ∧
      Left s o r (Courier.attempt (s.peer o) r now made).2 saved.2 := by
  obtain ⟨b, made'⟩ := x
  obtain ⟨rfl, c, hrepeated, hc⟩ := h
  let deadline := some (s.deadline (o made'))
  have hasks' : ({ s with store := c } : Server).asks? r.received = some q := hasks
  obtain ⟨hok, hserver⟩ := Server.respond_asked hasks' (o made')
  obtain ⟨halike, hleft⟩ := hc.respond deadline hm hq
  have hattempt : (Courier.attempt (s.peer o) r now made').1.isOk
      = (c.respond deadline q).1.isOk := by
    rw [Bool.eq_iff_iff, Server.isOk_attempt, hrepeated]
    exact hok
  refine ⟨hattempt.trans (halike.trans ?_), rfl, (c.respond deadline q).2, ?_, hleft⟩
  · simp only [saveAgain, Store.attempt, deadline]
    cases (b.respond (some (s.deadline (o made'))) (.save m)).1.isOk <;> rfl
  · change s.repeated o r.received (made' + 1) = _
    rw [Server.repeated_succ, hrepeated, hserver]
    rfl

/-- **A delivery whose request asks for a metric to be saved** ends as if it were saved. -/
theorem endsAs_of_asks? {q : Call} (hasks : s.asks? (t.request d).received = some q)
    (hq : q.Saves m) (hm : m.isSound) (hs : s.store.Faultless) : t.EndsAs s d m := by
  intro start o
  have hstep : ∀ (now now' : ℕ) made x, Left s o (t.request d) made x → _ :=
    fun now now' made x h => h.attempt hasks hq hm (start + now) now'
  have hfirst : Left s o (t.request d) 0 (s.store, 0) := ⟨rfl, s.store, rfl, hs.alike⟩
  obtain ⟨hok, -, c, hrepeated, hc⟩ := Backoff.attempts_related hstep t.backoff.delays 0 0 hfirst
  refine ⟨(accepted_eq _).trans hok, ?_⟩
  have hstore : (s.repeated o (t.request d).received
      (t.deliver (s.peer o) start d).state).store = c := congrArg Server.store hrepeated
  rw [hstore]
  exact hc

theorem endsAs_document (ht : t.base.IsRoot) (hs : s.store.Faultless) (hkey : s.Trusts t)
    (hreads : m.ReadsAs m) (hlength : (Wire.encodeAll [m]).length ≤ Http.documentLimit) :
    t.EndsAs s (.document m) m := by
  have hshorter : (Wire.encode m).length ≤ Http.documentLimit := by
    rw [Wire.encodeAll_singleton, List.length_cons, List.length_append] at hlength
    omega
  exact endsAs_of_asks? (Server.asks?_document hkey ht hreads hshorter) (.inl rfl)
    hreads.isSound hs

theorem endsAs_batch (ht : t.base.IsRoot) (hs : s.store.Faultless) (hkey : s.Trusts t)
    (hreads : m.ReadsAs m) (hlength : (Wire.encodeAll [m]).length ≤ Http.documentLimit) :
    t.EndsAs s (.batch [m]) m :=
  endsAs_of_asks? (Server.asks?_batch hkey ht hreads hlength) (.inr rfl) hreads.isSound hs

/-- **A path of which nothing is kept** is refused. -/
theorem refused_of_dropped (ht : t.base.IsRoot) (hkept : Url.kept? m.id = none) :
    t.Refused s (.path m) := by
  intro start o
  have hrefused : ∀ now made, s.repeated o (t.request (.path m)).received made = s →
      (attempt (s.peer o) (t.request (.path m)) now made).1.isOk = false ∧
        s.repeated o (t.request (.path m)).received (made + 1) = s := by
    intro now made hafter
    obtain ⟨hstatus, hserver⟩ := Server.respond_dropped s (o made) ht hkept
    rw [Server.repeated_succ, hafter]
    refine ⟨?_, hserver⟩
    rw [Bool.eq_false_iff, ne_eq, Server.isOk_attempt, hafter, hstatus]
    decide
  have hfail : ∀ (now made : ℕ) (e : DeliveryFault) (u : ℕ),
      s.repeated o (t.request (.path m)).received made = s →
      attempt (s.peer o) (t.request (.path m)) (start + now) made = (.error e, u) →
        s.repeated o (t.request (.path m)).received u = s := by
    intro now made e u hafter hattempt
    rw [show u = made + 1 from (congrArg Prod.snd hattempt).symm]
    exact (hrefused now made hafter).2
  have hfirst : s.repeated o (t.request (.path m)).received 0 = s := rfl
  rcases Backoff.attempts_invariant hfail (fun _ => true) .none t.backoff.delays 0 hfirst with
    ⟨hleft, hending⟩ | ⟨now, made, a, hafter, hattempt, -⟩
  · refine ⟨?_, hleft⟩
    rw [accepted]
    split
    · exact absurd ‹_› (hending _)
    · rfl
  · have hok := (hrefused (start + now) made hafter).1
    rw [hattempt] at hok
    cases hok

/-- **The deliveries of a metric agree.** Documents end as if the metric were saved, whatever its
name is. So does a path if the name has no tabs or line breaks and stands for no directory.
Otherwise a path saves the metric under what the address keeps of the name, or is refused. -/
theorem deliveries_agree {t : Courier} {s : Server} {m : Metric} (ht : t.base.IsRoot)
    (hs : s.store.Faultless) (hkey : s.Trusts t) (hid : m.id ≠ "") (hvalue : m.value.Survives)
    (hlength : (Wire.encodeAll [m]).length ≤ Http.documentLimit) :
    t.EndsAs s (.document m) m ∧ t.EndsAs s (.batch [m]) m ∧
      (Url.Keeps m.id → t.EndsAs s (.path m) m) ∧
      (∀ kept, Url.kept? m.id = some kept → t.EndsAs s (.path m) ⟨kept, m.value⟩) ∧
      (Url.kept? m.id = none → t.Refused s (.path m)) := by
  have hreads : m.ReadsAs m := ⟨hid, rfl, hvalue⟩
  have hfinite := hvalue.isFinite
  have hpath : ∀ kept, Url.kept? m.id = some kept → t.EndsAs s (.path m) ⟨kept, m.value⟩ := by
    intro kept hkept
    have hsound : (⟨kept, m.value⟩ : Metric).isSound :=
      Metric.isSound_iff.mpr ⟨Url.ne_empty_of_kept? hkept, hfinite⟩
    exact endsAs_of_asks? (s.asks?_path ht hfinite hkept) (.inl rfl) hsound hs
  exact ⟨endsAs_document ht hs hkey hreads hlength, endsAs_batch ht hs hkey hreads hlength,
    fun hkeeps => hpath m.id (hkeeps.kept? hid), hpath, refused_of_dropped ht⟩

/-- A server whose file is not written at first, and a name with all kinds of characters. Each
delivery is accepted at the second attempt. -/
theorem deliveries_agree_retried :
    let t : Courier :=
      { base := ⟨"http", "localhost", some 8080, [""], none⟩
        key := some ⟨[1, 2, 3]⟩
        backoff := ⟨[1000]⟩ }
    let m : Metric := ⟨"a/b %2F π?", .counter 5⟩
    let file : SnapshotFile := ⟨["metrics.json"], { mishaps := [some (.torn 3)] }⟩
    let s : Server :=
      { store := .persistent ⟨.ofList [⟨m.id, .counter 4⟩], file, .immediate⟩
        key := some ⟨[1, 2, 3]⟩ }
    (t.EndsAs s (.document m) m ∧ t.EndsAs s (.batch [m]) m ∧ t.EndsAs s (.path m) m) ∧
      let saved := t.backoff.run (fun _ => true) (saveAgain s (fun _ => { trace := "" }) m)
        (s.store, 0)
      saved.ending.isOk = true ∧ saved.time = 1000 ∧
        ∃ n, saved.state.1 = .persistent n ∧ n.table = .ofList [⟨m.id, .counter 9⟩] := by
  intro t m file s
  have ht : t.base.IsRoot := .inr rfl
  have hkey : s.Trusts t := by
    rintro k ⟨rfl⟩ k' ⟨rfl⟩
    rfl
  have hlength : (Wire.encodeAll [m]).length ≤ Http.documentLimit := by decide +kernel
  obtain ⟨hdocument, hbatch, hpath, -⟩ := @deliveries_agree t s m ht trivial hkey (by decide)
    (Value.survives_counter 5) hlength
  refine ⟨⟨hdocument, hbatch, hpath (by decide)⟩, ?_, ?_, ?_⟩
  · decide +kernel
  · decide +kernel
  · exact ⟨_, rfl, by decide +kernel⟩

/-- A name that stands for a directory is accepted as a document and refused as a path. A tab is
kept by a document and dropped from a path. -/
theorem deliveries_differ :
    let t : Courier := ⟨⟨"http", "localhost", some 8080, [""], none⟩, none, ⟨[]⟩⟩
    let s : Server := { store := .memory .empty }
    let o : ℕ → Occasion := fun _ => { trace := "" }
    let ended (d : Delivery) := t.deliver (s.peer o) 0 d
    let outcome (d : Delivery) : Bool × List Metric :=
      (accepted (ended d), match (s.repeated o (t.request d).received (ended d).state).store with
        | .memory t => t.entries
        | _ => [])
    let dot : Metric := ⟨".", .counter 1⟩
    let tab : Metric := ⟨"a\tb", .counter 1⟩
    (∀ m ∈ [dot, tab], ∀ d ∈ [Delivery.document m, .batch [m]], outcome d = (true, [m])) ∧
      outcome (.path dot) = (false, []) ∧ outcome (.path tab) = (true, [⟨"ab", .counter 1⟩]) := by
  intro t s o ended outcome dot tab
  refine ⟨fun m hm => ?_, by decide +kernel, by decide +kernel⟩
  have hreads : m.ReadsAs m ∧ (Wire.encodeAll [m]).length ≤ Http.documentLimit := by
    simp only [List.mem_cons, List.not_mem_nil, or_false] at hm
    rcases hm with rfl | rfl <;> exact ⟨⟨by decide, rfl, rfl⟩, by decide +kernel⟩
  obtain ⟨hreads, hlength⟩ := hreads
  have ht : t.base.IsRoot := .inr rfl
  have hkey : s.Trusts t := by rintro k ⟨⟩
  -- it is known how the documents end, so that none has to be compressed here
  have houtcome : ∀ d, t.EndsAs s d m → outcome d = (true, [m]) := by
    intro d hends
    obtain ⟨hok, hleft⟩ := hends 0 o
    have hstore : (s.repeated o (t.request d).received (ended d).state).store
        = .memory (.ofList [m]) := hleft.eq_memory
    simp only [outcome, hstore]
    exact congrArg (Prod.mk · [m]) hok
  intro d hd
  simp only [List.mem_cons, List.not_mem_nil, or_false] at hd
  rcases hd with rfl | rfl
  · exact houtcome _ (endsAs_document ht trivial hkey hreads hlength)
  · exact houtcome _ (endsAs_batch ht trivial hkey hreads hlength)

end Agent.Courier
end Telemetry
