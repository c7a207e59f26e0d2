import Telemetry.Proofs.Http.Layers
import Telemetry.Proofs.Metric.Decoding
import Telemetry.Proofs.Store.Refinement

/-!
# What requests ask of a store

A request either changes metrics or it only reads them, and its path tells which. A request that
changes metrics fails before the store has been asked for anything, or it asks the store once, to
save sound metrics, and is answered according to what comes of that.

## Main definitions

* `Telemetry.Http.Request.isUpdate`, `Telemetry.Http.Request.metrics?` — what a request says
* `Telemetry.Http.Server.asks?` — what a request asks of the store
* `Telemetry.Http.Handled` — all that can become of an update

## Main results

* `Telemetry.Http.accepts_alike` — bodies are read as documents are
* `Telemetry.Http.handled_answer` — one call
* `Telemetry.Http.Server.respond_update` — one request that is an update
* `Telemetry.Http.Server.respond_read` — one request that is none
-/

namespace Telemetry.Http

/-! ### What a body holds -/

/-- **A body holds the metrics that it is read as anywhere else**, whether it holds one metric or an
array of them: a server reads all of it before it checks the first, others check each metric as
soon as it is read, and both accept the same bytes. -/
theorem accepts_alike (trace : String) (b : Bytes) :
    (∀ m, Wire.decode b = .ok m ↔ metricOf trace b = .ok m) ∧
    (∀ ms, Wire.decodeAll b = .ok ms ↔ metricsOf trace b = .ok ms) := by
  constructor
  · intro m
    rw [Wire.decode_eq_ok_iff, metricOf, checked_eq_ok_iff]
  · intro ms
    rw [Wire.decodeAll_eq_ok_iff, metricsOf, checked_eq_ok_iff]

/-! ### What a request says -/

/-- Does a call change metrics? -/
def Call.isUpdate : Call → Bool
  | .updateOne | .updateMany | .updateByPath .. => true
  | _ => false

/-- The metrics that a call gives, in its body or in its path. -/
def Call.metrics? (body : Bytes) : Call → Option (List Metric)
  | .updateOne =>
    match Wire.decodeDraft body with
    | .ok d => d.metric?.toOption.map fun m => [m]
    | .error _ => none
  | .updateMany =>
    match Wire.decodeDrafts body with
    | .ok ds => (ds.mapM Draft.metric?).toOption
    | .error _ => none
  | .updateByPath type id raw => do
    let k ← ({ id, type : Draft }).key?.toOption
    let v ← (Value.read k.kind raw).toOption
    return [⟨k.id, v⟩]
  | _ => none

/-- Is the request a POST to one of the paths for updates? -/
def Request.isUpdate (r : Request) : Bool :=
  r.method = .post && (callOf (pathNames (targetPath r.target))).any Call.isUpdate

/-- The metrics that a request gives if its body is this one. -/
def Request.metricsIn? (r : Request) (body : Bytes) : Option (List Metric) :=
  match route r.method (targetPath r.target) with
  | .found c => c.metrics? body
  | _ => none

/-- The metrics that a request gives, if all of its body can be read. -/
def Request.metrics? (r : Request) : Option (List Metric) :=
  ((decodeRequest r).filter Incoming.whole).bind fun body => r.metricsIn? body.content

/-- A request with another method than POST is no update. -/
theorem isUpdate_of_ne_post {r : Request} (h : r.method ≠ .post) : r.isUpdate = false := by
  simp [Request.isUpdate, h]

theorem post_of_isUpdate {r : Request} (h : r.isUpdate = true) : r.method = .post := by
  by_contra hpost
  rw [isUpdate_of_ne_post hpost] at h
  cases h

/-! ### What a request asks of the store -/

/-- The call that saves the only metric, if there is one. -/
def savingOne : Option (List Metric) → Option Telemetry.Call
  | some [m] => some (.save m)
  | _ => none

/-- What a call asks of the store, if it saves anything. A document that is too long is not read. -/
def Call.asks? (body : Bytes) : Call → Option Telemetry.Call
  | .updateOne =>
    if body.length ≤ documentLimit then savingOne (Call.updateOne.metrics? body) else none
  | .updateMany =>
    if body.length ≤ documentLimit then (Call.updateMany.metrics? body).map .saveAll else none
  | .updateByPath type id raw => savingOne ((Call.updateByPath type id raw).metrics? body)
  | _ => none

/-- What a request asks of the store if its body is this one. -/
def Request.asksWith? (r : Request) (body : Bytes) : Option Telemetry.Call :=
  match route r.method (targetPath r.target) with
  | .found c => c.asks? body
  | _ => none

/-- What a request asks of the store, if it saves anything and no layer keeps it from that. -/
def Server.asks? (s : Server) (r : Request) : Option Telemetry.Call :=
  (s.passOn r).toOption.bind r.asksWith?

theorem toOption_eq_some_iff {ε α : Type} {x : Except ε α} {a : α} :
    x.toOption = some a ↔ x = .ok a := by
  cases x <;> simp [Except.toOption]

theorem eq_of_savingOne {given? : Option (List Metric)} {q : Telemetry.Call}
    (h : savingOne given? = some q) : given? = some q.metrics := by
  rw [savingOne.eq_def] at h
  split at h <;> cases h
  rfl

theorem Call.isUpdate_of_asks? {body : Bytes} {c : Call} {q : Telemetry.Call}
    (h : c.asks? body = some q) : c.isUpdate = true := by
  cases c with
  | updateOne | updateMany | updateByPath => rfl
  | index | ping | value | valueByPath => cases h

theorem Call.metrics?_of_asks? {body : Bytes} {c : Call} {q : Telemetry.Call}
    (h : c.asks? body = some q) : c.metrics? body = some q.metrics := by
  cases c with
  | updateOne =>
    rw [asks?] at h
    split_ifs at h
    exact eq_of_savingOne h
  | updateMany =>
    rw [asks?] at h
    split_ifs at h
    obtain ⟨ms, hms, rfl⟩ := Option.map_eq_some_iff.mp h
    exact hms
  | updateByPath type id raw => exact eq_of_savingOne h
  | index | ping | value | valueByPath => cases h

/-- A request that leads to a call asks what the call asks. -/
theorem Request.asksWith?_of_found {r : Request} {c : Call}
    (h : route r.method (targetPath r.target) = .found c) (body : Bytes) :
    r.asksWith? body = c.asks? body := by
  -- the equation of the definition is slow to come by, since its route is computed
  delta asksWith?
  simp only [h]

/-- A request that leads to a call gives what the call gives. -/
theorem Request.metricsIn?_of_found {r : Request} {c : Call}
    (h : route r.method (targetPath r.target) = .found c) (body : Bytes) :
    r.metricsIn? body = c.metrics? body := by
  delta metricsIn?
  simp only [h]

theorem Request.metricsIn?_of_nowhere {r : Request}
    (h : route r.method (targetPath r.target) = .nowhere) (body : Bytes) :
    r.metricsIn? body = none := by
  delta metricsIn?
  simp only [h]

/-- Whatever its body is, a request saves what it gives. -/
theorem Request.metricsIn?_of_asksWith? {r : Request} {body : Bytes} {q : Telemetry.Call}
    (h : r.asksWith? body = some q) : r.metricsIn? body = some q.metrics := by
  delta asksWith? at h
  delta metricsIn?
  split at h
  · exact Call.metrics?_of_asks? h
  · cases h

/-- Only what the request gives is saved. -/
theorem Server.metrics?_of_asks? {s : Server} {r : Request} {q : Telemetry.Call}
    (hpost : r.method = .post) (h : s.asks? r = some q) : r.metrics? = some q.metrics := by
  obtain ⟨body, hpassed, hasks⟩ := Option.bind_eq_some_iff.mp h
  rw [Request.metrics?, Server.decodeRequest_of_passOn hpost (toOption_eq_some_iff.mp hpassed)]
  exact Request.metricsIn?_of_asksWith? hasks

/-! ### What becomes of an update -/

/-- Success is told with status 200, a failure as a failure, and the overflow of a counter as the
client's fault. -/
structure Tells {α : Type} (good : α → Response) (bad : StoreError → Response) : Prop where
  success : ∀ a, (good a).status = 200
  failure : ∀ e, (bad e).isSuccess = false
  overflow : ∀ id, (bad (.overflow id)).status = 400

/-- All that can become of an update that asks this of the store. -/
inductive Handled (b : Store) (deadline : Option Deadline) : Option Telemetry.Call → Answer → Prop
  /-- It fails and asks nothing. -/
  | refused {r : Response} (hr : r.isSuccess = false) : Handled b deadline none (some r, b)
  /-- It is answered by what comes of saving one metric. -/
  | save {m : Metric} (hm : m.isSound) {good : Metric → Response} {bad : StoreError → Response}
      (htells : Tells good bad) :
      Handled b deadline (some (.save m)) (conclude (b.save deadline m) good bad)
  /-- It is answered by what comes of saving some metrics. -/
  | saveAll {ms : List Metric} (hms : ∀ m ∈ ms, m.isSound) {good : List Metric → Response}
      {bad : StoreError → Response} (htells : Tells good bad) :
      Handled b deadline (some (.saveAll ms)) (conclude (b.saveAll deadline ms) good bad)

theorem conclude_snd {α : Type} (f : Store.Finished α) (good : α → Response)
    (bad : StoreError → Response) : (conclude f good bad).2 = f.2 := by
  rw [conclude.eq_def]
  split <;> rfl

theorem tells_documents {α : Type} (trace : String) (write : α → Bytes) :
    Tells (fun a => json 200 (write a)) (storeFailure trace) where
  success _ := rfl
  failure e := by cases e <;> rfl
  overflow _ := rfl

theorem tells_plainly : Tells (fun _ : Metric => Response.empty 200) plainStoreFailure where
  success _ := rfl
  failure e := by cases e <;> rfl
  overflow _ := rfl

section

variable (b : Store) (deadline : Option Deadline) (trace : String)

theorem handled_updateOne (body : Bytes) :
    Handled b deadline (Call.updateOne.asks? body)
      (withDocument body b (updateOne b deadline trace)) := by
  rw [withDocument, Call.asks?, Call.metrics?]
  split
  · rw [updateOne, metricOf, checked.eq_def]
    cases Wire.decodeDraft body with
    | error f => exact .refused (by rfl)
    | ok d =>
      dsimp only
      cases hmetric : d.metric? with
      | error e => exact .refused (by rfl)
      | ok m =>
        exact .save (Draft.isSound_of_metric? hmetric) (tells_documents trace Wire.encode)
  · exact .refused (by rfl)

theorem handled_updateMany (body : Bytes) :
    Handled b deadline (Call.updateMany.asks? body)
      (withDocument body b (updateMany b deadline trace)) := by
  rw [withDocument, Call.asks?, Call.metrics?]
  split
  · rw [updateMany, metricsOf, checked.eq_def]
    cases Wire.decodeDrafts body with
    | error f => exact .refused (by rfl)
    | ok ds =>
      dsimp only
      cases hmetrics : ds.mapM Draft.metric? with
      | error e => exact .refused (by rfl)
      | ok ms =>
        exact .saveAll (forall_of_mapM (fun _ _ => Draft.isSound_of_metric?) hmetrics)
          (tells_documents trace Wire.encodeAll)
  · exact .refused (by rfl)

theorem handled_updateByPath (body : Bytes) (type id raw : String) :
    Handled b deadline ((Call.updateByPath type id raw).asks? body)
      (updateByPath b deadline type id raw) := by
  rw [updateByPath, keyOfPath, Call.asks?, Call.metrics?]
  cases hkey : ({ id, type : Draft }).key? with
  | error e =>
    refine .refused ?_
    by_cases he : e = .emptyId
    · rw [if_pos he]
      rfl
    · rw [if_neg he]
      rfl
  | ok k =>
    dsimp only [Except.mapError]
    cases hv : Value.read k.kind raw with
    | error e => simpa [Except.toOption, hv, savingOne] using Handled.refused (by rfl)
    | ok v =>
      have hm : (⟨k.id, v⟩ : Metric).isSound :=
        Metric.isSound_iff.mpr ⟨Draft.id_ne_empty_of_key? hkey, Value.isFinite_of_read hv⟩
      simpa [Except.toOption, hv, savingOne] using Handled.save hm tells_plainly

/-- **All that can become of a call that is an update.** -/
theorem handled_answer (askable : Bool) (body : Bytes) {c : Call} (hc : c.isUpdate = true) :
    Handled b deadline (c.asks? body) (answer b askable deadline trace body c) := by
  cases c with
  | updateOne => exact handled_updateOne b deadline trace body
  | updateMany => exact handled_updateMany b deadline trace body
  | updateByPath type id raw => exact handled_updateByPath b deadline body type id raw
  | index | ping | value | valueByPath => cases hc

/-- A call that only reads leaves a store that is no database as it was, and is answered. -/
theorem answer_read (hb : ∀ d, b ≠ .database d) (askable : Bool) (body : Bytes) {c : Call}
    (hc : c.isUpdate = false) :
    ∃ response, answer b askable deadline trace body c = (some response, b) := by
  cases b with
  | database d => exact absurd rfl (hb d)
  | memory t | persistent t =>
    cases c with
    | updateOne | updateMany | updateByPath => cases hc
    | index => exact ⟨_, rfl⟩
    | ping => cases askable <;> exact ⟨_, rfl⟩
    | value =>
      rw [answer, withDocument]
      split
      · rw [value]
        cases keyOf trace body with
        | error r => exact ⟨r, rfl⟩
        | ok k => exact ⟨_, rfl⟩
      · exact ⟨_, rfl⟩
    | valueByPath type id =>
      rw [answer, valueByPath]
      cases keyOfPath type id with
      | error e => exact ⟨_, rfl⟩
      | ok k => exact ⟨_, rfl⟩

end

/-! ### Routes -/

theorem decode_updateByPath {rawType rawId raw : String} {c : Call}
    (h : (Call.updateByPath rawType rawId raw).decode = .ok c) :
    ∃ type id value, textOf "kind" rawType = .ok type ∧ textOf "id" rawId = .ok id ∧
      textOf "value" raw = .ok value ∧ c = .updateByPath type id value := by
  simp only [Call.decode, bind, Except.bind, pure, Except.pure] at h
  cases htype : textOf "kind" rawType <;> rw [htype] at h <;> try cases h
  cases hid : textOf "id" rawId <;> rw [hid] at h <;> try cases h
  cases hraw : textOf "value" raw <;> rw [hraw] at h <;> cases h
  exact ⟨_, _, _, rfl, rfl, rfl, rfl⟩

theorem decode_valueByPath {rawType rawId : String} {c : Call}
    (h : (Call.valueByPath rawType rawId).decode = .ok c) :
    ∃ type id, textOf "kind" rawType = .ok type ∧ textOf "id" rawId = .ok id ∧
      c = .valueByPath type id := by
  simp only [Call.decode, bind, Except.bind, pure, Except.pure] at h
  cases htype : textOf "kind" rawType <;> rw [htype] at h <;> try cases h
  cases hid : textOf "id" rawId <;> rw [hid] at h <;> cases h
  exact ⟨_, _, rfl, rfl, rfl⟩

theorem isUpdate_of_decode {c c' : Call} (h : c.decode = .ok c') : c'.isUpdate = c.isUpdate := by
  cases c with
  | updateByPath rawType rawId raw =>
    obtain ⟨type, id, value, -, -, -, rfl⟩ := decode_updateByPath h
    rfl
  | valueByPath rawType rawId =>
    obtain ⟨type, id, -, -, rfl⟩ := decode_valueByPath h
    rfl
  | _ =>
    cases h
    rfl

/-- Updates are made with POST only. -/
theorem post_of_accepts {c : Call} {μ : Method} (h : c.accepts μ = true) (hc : c.isUpdate = true) :
    μ = .post := by
  have hget : c.isGet = false := by
    cases c <;> first | rfl | cases hc
  rw [Call.accepts, hget, if_neg Bool.false_ne_true] at h
  exact of_decide_eq_true h

/-- A request that leads to a call is an update just if the call is one. -/
theorem isUpdate_of_found {r : Request} {c : Call}
    (h : route r.method (targetPath r.target) = .found c) : c.isUpdate = r.isUpdate := by
  rw [route] at h
  rw [Request.isUpdate]
  split at h
  · cases h
  · rename_i c' hcall
    rw [hcall, Option.any_some]
    split_ifs at h with hμ
    split at h
    · rename_i hdecode
      cases h
      rw [isUpdate_of_decode hdecode]
      cases hupdate : c'.isUpdate with
      | false => exact (Bool.and_false _).symm
      | true => simp [post_of_accepts hμ hupdate]
    · cases h

/-- What a path leads to: nothing but a failure, or a call that is an update just if the path is
one for updates. -/
theorem dispatch_cases (b : Store) (askable : Bool) (deadline : Option Deadline) (trace : String)
    (r : Request) (body : Bytes) :
    let a := dispatch b askable deadline trace r.method (targetPath r.target) body
    (∃ response : Response, response.isSuccess = false ∧ a = (some response, b) ∧
        r.asksWith? body = none) ∨
      ∃ c : Call, c.isUpdate = r.isUpdate ∧ a = answer b askable deadline trace body c ∧
        r.asksWith? body = c.asks? body := by
  delta Request.asksWith?
  rw [dispatch]
  cases hroute : route r.method (targetPath r.target) with
  | nowhere => exact .inl ⟨_, by rfl, rfl, rfl⟩
  | badVariable name => exact .inl ⟨_, by rfl, rfl, rfl⟩
  | wrongMethod allowed => exact .inl ⟨_, by rfl, rfl, rfl⟩
  | found c => exact .inr ⟨c, isUpdate_of_found hroute, rfl, rfl⟩

/-! ### Requests -/

namespace Server

variable (s : Server) (o : Occasion) {r : Request}

/-- **All that can become of a request that is an update**: it is handled as what it asks of the
store, unless the handler takes too long. -/
theorem respond_update (hr : r.isUpdate = true) :
    ∃ a, Handled s.store (some (s.deadline o)) (s.asks? r) a ∧
      (s.respond o r).response.status = (a.1.map Response.status).getD 408 ∧
      (s.respond o r).server = { s with store := a.2 } := by
  have hpost := post_of_isUpdate hr
  rw [asks?]
  cases hpassed : s.passOn r with
  | error status =>
    obtain ⟨hstatus, hserver⟩ := respond_refused o hpassed
    refine ⟨(some (.empty status), s.store), .refused ?_, hstatus, hserver⟩
    rcases status_of_refused hpost hpassed with rfl | rfl | rfl <;> rfl
  | ok body =>
    obtain ⟨hstatus, hserver⟩ := respond_passedOn o hpassed
    refine ⟨s.handling o r body, ?_, hstatus, hserver⟩
    rcases dispatch_cases s.store s.askable (some (s.deadline o)) o.trace r body with
      ⟨response, hfailed, ha, hasks⟩ | ⟨c, hc, ha, hasks⟩
    · rw [handling, ha]
      simpa [Except.toOption, hasks] using Handled.refused hfailed
    · rw [handling, ha]
      simpa [Except.toOption, hasks] using
        handled_answer s.store (some (s.deadline o)) o.trace s.askable body (hc.trans hr)

/-- **A request that is no update** leaves a server as it was, if its store is no database. -/
theorem respond_read (hs : ∀ d, s.store ≠ .database d) (hr : r.isUpdate = false) :
    (s.respond o r).server = s := by
  cases hpassed : s.passOn r with
  | error status => exact (respond_refused o hpassed).2
  | ok body =>
    rw [(respond_passedOn o hpassed).2]
    rcases dispatch_cases s.store s.askable (some (s.deadline o)) o.trace r body with
      ⟨response, -, ha, -⟩ | ⟨c, hc, ha, -⟩
    · rw [handling, ha]
    · obtain ⟨response, hread⟩ :=
        answer_read s.store (some (s.deadline o)) o.trace hs s.askable body (hc.trans hr)
      rw [handling, ha, hread]

end Server

end Telemetry.Http
