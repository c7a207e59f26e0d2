import Telemetry.Proofs.Http.Calls
import Telemetry.Proofs.Store.Accumulation

/-!
# What requests do to the store

A server over a table that is saved at once is looked at from the outside: a request, the response
to it, and the metrics and the file that are left. A request can fail in every layer on the way to
its handler, in the handler, in the merge and in the write of the file, and in all these cases it
leaves no trace. An update that is answered with success has been merged, whole, in order and once.
All this is said of requests whose time does not run out in front of the file.

## Main definitions

* `Telemetry.Http.Settled` — what may come of a request
* `Telemetry.Http.Server.serve`, `Telemetry.Http.Server.accepted` — any sequence of requests

## Main results

* `Telemetry.Http.Server.respond_settled` — one request
* `Telemetry.Http.Server.updates_count_once` — any sequence of requests, and what is shown then
-/

namespace Telemetry.Http

/-! ### What may come of a request -/

/-- What may come of a request in front of a table that is saved at once. A failure, and a request
that is no update, leave the metrics and the file. A success of an update has merged its metrics
in order, and the file holds exactly the metrics. -/
def Settled (m : PersistentTable) (update : Bool) (metrics? : Option (List Metric))
    (a : Answer) : Prop :=
  ∃ response n, a = (some response, .persistent n) ∧ n.policy = .immediate ∧
    ((update = true ∧ response.status = 200 ∧
        ∃ ms rs, metrics? = some ms ∧ m.table.Merges ms rs n.table ∧ n.Agrees) ∨
      ((update = false ∨ response.isSuccess = false) ∧ n.table = m.table ∧ n.bytes = m.bytes))

variable {m : PersistentTable} {update : Bool} {metrics? : Option (List Metric)}

/-- A failure before anything was done about the store. -/
theorem settled_of_failure (hm : m.policy = .immediate) {r : Response}
    (hr : r.isSuccess = false) : Settled m update metrics? (some r, .persistent m) :=
  ⟨r, m, rfl, hm, .inr ⟨.inr hr, rfl, rfl⟩⟩

/-- A request that only reads. -/
theorem settled_of_read (hm : m.policy = .immediate) (r : Response) :
    Settled m false metrics? (some r, .persistent m) :=
  ⟨r, m, rfl, hm, .inr ⟨.inl rfl, rfl, rfl⟩⟩

/-- A change of the table that is answered according to its outcome. -/
theorem settled_conclude {α : Type} (hm : m.policy = .immediate)
    {change : PersistentTable.Change α} {ms : List Metric}
    (hchange : ∀ a u, change m.table = (.ok a, u) → ∃ rs, m.table.Merges ms rs u)
    {good : α → Response} (hgood : ∀ a, (good a).status = 200) {bad : StoreError → Response}
    (hbad : ∀ e, (bad e).isSuccess = false) :
    Settled m true (some ms)
      (conclude (.returned (m.write change).1, .persistent (m.write change).2) good bad) := by
  obtain ⟨hpolicy, ⟨a, hok, hc, hagrees⟩ | ⟨e, hfail, htable, hbytes⟩⟩ := m.write_cases hm change
  · obtain ⟨rs, hmerges⟩ := hchange a _ hc
    rw [hok]
    exact ⟨good a, _, rfl, hpolicy, .inl ⟨rfl, hgood a, ms, rs, rfl, hmerges, hagrees⟩⟩
  · rw [hfail]
    exact ⟨bad e, _, rfl, hpolicy, .inr ⟨.inr (hbad e), htable, hbytes⟩⟩

/-- **All that can become of an update** in front of a table that is saved at once, if it is not
cut off there. -/
theorem Handled.settled (hm : m.policy = .immediate) {deadline : Option Deadline}
    (hwhole : deadline.bind Deadline.steps = none) {asked? : Option Telemetry.Call} {a : Answer}
    (h : Handled (.persistent m) deadline asked? a) :
    Settled m true (asked?.map Telemetry.Call.metrics) a := by
  cases h with
  | refused hr => exact settled_of_failure hm hr
  | save hx htells =>
    rw [Store.save, hwhole]
    exact settled_conclude hm (fun r _ h => ⟨[r], Table.apply_eq_ok_iff.mp h⟩) htells.success
      htells.failure
  | saveAll hxs htells =>
    rw [Store.saveAll, hwhole]
    exact settled_conclude hm (fun rs _ h => ⟨rs, Table.applyAll_eq_ok_iff.mp h⟩) htells.success
      htells.failure

/-- **All that can come of a request** that is not cut off, whatever its headers, its body and the
mishaps are. -/
theorem Server.respond_settled {s : Server} (hs : s.store = .persistent m)
    (hm : m.policy = .immediate) {o : Occasion} (ho : o.cutOff = none) (r : Request) :
    (s.respond o r).server = { s with store := (s.respond o r).server.store } ∧
      Settled m r.isUpdate r.metrics?
        (some (s.respond o r).response, (s.respond o r).server.store) := by
  cases hr : r.isUpdate with
  | false =>
    have hlocal : ∀ d, s.store ≠ .database d := by simp [hs]
    rw [s.respond_read o hlocal hr]
    refine ⟨rfl, ?_⟩
    rw [hs]
    exact settled_of_read hm _
  | true =>
    obtain ⟨a, hhandled, hstatus, hserver⟩ := s.respond_update o hr
    rw [hs] at hhandled
    have hwhole : (some (s.deadline o)).bind Deadline.steps = none := ho
    obtain ⟨response, n, rfl, hn, hcases⟩ := hhandled.settled hm hwhole
    replace hstatus : (s.respond o r).response.status = response.status := hstatus
    rw [hserver]
    refine ⟨rfl, _, n, rfl, hn, ?_⟩
    rw [Response.isSuccess, hstatus, ← Response.isSuccess]
    refine hcases.imp ?_ id
    rintro ⟨-, hsuccess, ms, rs, hms, hmerged⟩
    refine ⟨rfl, hsuccess, ms, rs, ?_, hmerged⟩
    obtain ⟨q, hq, rfl⟩ := Option.map_eq_some_iff.mp hms
    exact Server.metrics?_of_asks? (post_of_isUpdate hr) hq

/-! ### Any sequence of requests -/

namespace Server

/-- The server that requests leave, answered one after the other. -/
def serve (s : Server) (requests : List (Occasion × Request)) : Server :=
  requests.foldl (fun s q => (s.respond q.1 q.2).server) s

/-- The metrics of the updates among them that are answered with status 200. -/
def accepted (s : Server) : List (Occasion × Request) → List Metric
  | [] => []
  | (o, r) :: rest =>
    (if r.isUpdate = true ∧ (s.respond o r).response.status = 200 then r.metrics?.getD [] else [])
      ++ accepted (s.respond o r).server rest

/-- What a sequence of requests leaves: a table in which the metrics of the successful updates
have joined the past. -/
theorem serve_holds {s : Server} {m : PersistentTable} (hs : s.store = .persistent m)
    (hm : m.policy = .immediate) {past : List Metric} (hpast : m.table.Holds past)
    {requests : List (Occasion × Request)} (hrequests : ∀ q ∈ requests, q.1.cutOff = none) :
    ∃ n, (s.serve requests) = { s with store := .persistent n } ∧ n.policy = .immediate ∧
      n.table.Holds (past ++ s.accepted requests) := by
  induction requests generalizing s m past with
  | nil => exact ⟨m, by rw [← hs]; rfl, hm, by rwa [accepted, List.append_nil]⟩
  | cons q rest ih =>
    obtain ⟨o, r⟩ := q
    obtain ⟨ho, hrest⟩ := List.forall_mem_cons.mp hrequests
    obtain ⟨hserver, response, n, ha, hn, hcases⟩ := respond_settled hs hm ho r
    obtain ⟨hresponse, hstore⟩ := Prod.mk.inj ha
    cases Option.some.inj hresponse
    have hfirst : n.table.Holds (past ++ s.accepted [(o, r)]) := by
      rw [accepted, accepted, List.append_nil]
      rcases hcases with ⟨hupdate, hstatus, ms, rs, hms, hmerges, -⟩ | ⟨hfailed, htable, -⟩
      · rw [if_pos ⟨hupdate, hstatus⟩, hms]
        exact hpast.merges hmerges
      · have hnot : ¬ (r.isUpdate = true ∧ (s.respond o r).response.status = 200) := by
          rintro ⟨hupdate, hstatus⟩
          rcases hfailed with hread | hfailure
          · rw [hupdate] at hread
            cases hread
          · rw [Response.isSuccess, hstatus] at hfailure
            cases hfailure
        rw [if_neg hnot, List.append_nil, htable]
        exact hpast
    obtain ⟨n', hserved, hn', hholds⟩ := ih hstore hn hfirst hrest
    have hrun : s.accepted ((o, r) :: rest)
        = s.accepted [(o, r)] ++ (s.respond o r).server.accepted rest := by
      simp only [accepted, List.append_nil]
    rw [hrun, ← List.append_assoc]
    refine ⟨n', ?_, hn', hholds⟩
    rw [serve, List.foldl_cons]
    exact hserved.trans (by rw [hserver])

/-! ### What is shown -/

/-- A client that does not say what it accepts gets the response as it is. -/
theorem encodeResponse_nil (r : Response) : encodeResponse [] r = r := by
  rw [encodeResponse, show prefersGzip [] = false from rfl, Bool.and_false,
    if_neg Bool.false_ne_true]

/-- The response to a request without headers and without a body is that of its handler, but for
some headers. -/
theorem respond_plain (s : Server) (o : Occasion) (target : String) (response : Response)
    (h : (s.handling o { method := .get, target } []).1 = some response) :
    (s.respond o { method := .get, target }).response.status = response.status ∧
      (s.respond o { method := .get, target }).response.body = response.body := by
  rcases hhandled : s.handling o { method := .get, target } [] with ⟨answered, b⟩
  rw [hhandled] at h
  cases h
  have hsigned : ∃ signed, s.signing o { method := .get, target } ⟨[], true⟩
      = (some signed, b) ∧ signed.status = response.status ∧ signed.body = response.body := by
    rw [signing]
    cases s.key with
    | none => exact ⟨response, hhandled, rfl, rfl⟩
    | some key =>
      have hcollect : (⟨[], true⟩ : Incoming).collect bodyLimit = .ok [] := rfl
      refine ⟨sign key response, ?_, rfl, rfl⟩
      simp only [hcollect, hhandled]
      rfl
  obtain ⟨signed, hsigned, hstatus, hbody⟩ := hsigned
  have hlogged : (s.logging o { method := .get, target } ⟨[], true⟩).1
      = (some (tag o.trace signed), b) := by
    rw [logging, if_neg Method.noConfusion, logged, hsigned]
  have htimed : (s.timed o { method := .get, target }).response = tag o.trace signed := by
    rcases hlogging : s.logging o { method := .get, target } ⟨[], true⟩ with ⟨a, log⟩
    rw [hlogging] at hlogged
    obtain rfl : a = (some (tag o.trace signed), b) := hlogged
    have hbody : decodeRequest { method := .get, target } = some ⟨[], true⟩ := rfl
    simp only [timed, hbody, hlogging, encodeResponse_nil]
  have hhead : ({ method := .get, target } : Request).method ≠ .head := Method.noConfusion
  rw [respond, if_neg Method.noConfusion]
  simp only [htimed, if_neg hhead]
  exact ⟨hstatus, hbody⟩

/-- A request for the value of a counter, with nothing but its path, is answered by the value. -/
theorem respond_value {s : Server} {m : PersistentTable} (hs : s.store = .persistent m)
    (o : Occasion) {target id : String} (hid : id ≠ "")
    (hroute : route .get (targetPath target) = .found (.valueByPath "counter" id)) :
    match m.get? ⟨id, .counter⟩ with
    | some x => (s.respond o { method := .get, target }).response.status = 200 ∧
        (s.respond o { method := .get, target }).response.body = Bytes.ofText x.value.display
    | none => (s.respond o { method := .get, target }).response.status = 404 := by
  have hkey : keyOfPath "counter" id = .ok ⟨id, .counter⟩ := by
    have hread : Kind.read "counter" = .ok .counter := rfl
    simp [keyOfPath, Draft.key?, Draft.check, Draft.checkPart, hid, hread, bind, Except.bind, pure,
      Except.pure, Except.map, Except.mapError]
  have hhandled : s.handling o { method := .get, target } []
      = valueByPath (.persistent m) (some (s.deadline o)) "counter" id := by
    rw [handling, hs, dispatch, hroute]
    rfl
  cases hget : m.get? ⟨id, .counter⟩ with
  | none =>
    have hshown := respond_plain s o target (.text 404 (notFound ⟨id, .counter⟩)) (by
      simp only [hhandled, valueByPath, hkey, Store.get, conclude, hget])
    exact hshown.1
  | some x =>
    exact respond_plain s o target (.text 200 x.value.display) (by
      simp only [hhandled, valueByPath, hkey, Store.get, conclude, hget])

theorem decode_ne_nil {b : Bytes} (h : b ≠ []) : Percent.decode b ≠ [] := by
  rw [Percent.decode.eq_def]
  split
  · exact absurd rfl h
  · exact List.cons_ne_nil _ _
  · exact List.cons_ne_nil _ _
  · split_ifs
    · split <;> exact List.cons_ne_nil _ _
    · exact List.cons_ne_nil _ _

/-- A name that is written in a path is not decoded to an empty one. -/
theorem ne_empty_of_textOf {name raw t : String} (hraw : raw ≠ "") (h : textOf name raw = .ok t) :
    t ≠ "" := by
  rintro rfl
  rw [textOf] at h
  split at h
  · rename_i hdecoded
    cases h
    have hbytes : Bytes.ofText raw ≠ [] := fun hnil => hraw (Bytes.ofText_injective hnil)
    exact decode_ne_nil hbytes (Bytes.ofText_of_text? hdecoded).symm
  · cases h

theorem callOf_valueByPath {names : List String} {type id : String}
    (h : callOf names = some (.valueByPath type id)) : id ≠ "" := by
  rw [callOf.eq_def] at h
  split at h <;> try cases h
  · split_ifs at h
    cases h
  · split_ifs at h with hid
    cases h
    exact hid

theorem eq_valueByPath_of_decode {c : Call} {type id : String}
    (h : c.decode = .ok (.valueByPath type id)) :
    ∃ rawType rawId, c = .valueByPath rawType rawId ∧ textOf "id" rawId = .ok id := by
  cases c with
  | valueByPath rawType rawId =>
    obtain ⟨type', id', -, hid, heq⟩ := decode_valueByPath h
    cases heq
    exact ⟨rawType, rawId, rfl, hid⟩
  | updateByPath rawType rawId raw =>
    obtain ⟨type', id', value, -, -, -, heq⟩ := decode_updateByPath h
    cases heq
  | _ => cases h

/-- A path that asks for a value names a metric. -/
theorem id_ne_empty {path type id : String}
    (h : route .get path = .found (.valueByPath type id)) : id ≠ "" := by
  rw [route] at h
  split at h
  · cases h
  · rename_i hcall
    split_ifs at h
    split at h
    · rename_i hdecode
      cases h
      obtain ⟨rawType, rawId, rfl, hid⟩ := eq_valueByPath_of_decode hdecode
      exact ne_empty_of_textOf (callOf_valueByPath hcall) hid
    · cases h

/-- **Updates count once.** In front of any table that is saved at once, with any file and any
mishaps to come, a request that is not cut off leaves the metrics and the file if it fails or is no
update, and has merged its metrics if it is an update that succeeds. So after any sequence of such
requests a counter is shown at the exact sum of what it stood at and of the deltas of the updates
answered with status 200. -/
theorem updates_count_once (table : Table) (file : SnapshotFile) (server : Server) :
    let m : PersistentTable := ⟨table, file, .immediate⟩
    let s : Server := { server with store := .persistent m }
    (∀ o r, o.cutOff = none → ∃ n : PersistentTable,
      (s.respond o r).server = { server with store := .persistent n } ∧ n.policy = .immediate ∧
      (r.isUpdate = false ∨ (s.respond o r).response.isSuccess = false →
        n.getAll = m.getAll ∧ n.bytes = m.bytes) ∧
      (r.isUpdate = true → (s.respond o r).response.isSuccess = true →
        (s.respond o r).response.status = 200 ∧ ∃ ms rs, r.metrics? = some ms ∧
          m.table.Merges ms rs n.table ∧ n.bytes = some (Snapshot.format n.getAll))) ∧
    ∀ requests : List (Occasion × Request), (∀ q ∈ requests, q.1.cutOff = none) →
      ∀ o target id, route .get (targetPath target) = .found (.valueByPath "counter" id) →
      let shown := ((s.serve requests).respond o { method := .get, target }).response
      let ds := deltas id (m.getAll ++ s.accepted requests)
      if ds = [] then shown.status = 404
      else shown.status = 200 ∧ shown.body = Bytes.ofText (Integer.text ds.sum) := by
  intro m s
  refine ⟨fun o r ho => ?_, fun requests hrequests o target id hroute => ?_⟩
  · obtain ⟨hserver, response, n, ha, hn, hcases⟩ := respond_settled (s := s) rfl rfl ho r
    obtain ⟨hresponse, hstore⟩ := Prod.mk.inj ha
    cases Option.some.inj hresponse
    refine ⟨n, hserver.trans (by rw [hstore]), hn, fun hfailed => ?_, fun hupdate hsuccess => ?_⟩
    · rcases hcases with ⟨hupdate, hstatus, -⟩ | ⟨-, htable, hbytes⟩
      · exact absurd hfailed (not_or.mpr ⟨by simp [hupdate], by simp [Response.isSuccess, hstatus]⟩)
      · exact ⟨congrArg Table.entries htable, hbytes⟩
    · rcases hcases with ⟨-, hstatus, ms, rs, hms, hmerges, hagrees⟩ | ⟨hfailed, -⟩
      · exact ⟨hstatus, ms, rs, hms, hmerges, hagrees⟩
      · exact absurd hfailed (not_or.mpr ⟨by simp [hupdate], by simp [hsuccess]⟩)
  · intro shown ds
    obtain ⟨n, hserved, -, hholds⟩ :=
      serve_holds (s := s) rfl rfl table.holds_entries hrequests
    have hstore : (s.serve requests).store = .persistent n := by rw [hserved]
    replace hholds : n.table.Holds (m.getAll ++ s.accepted requests) := hholds
    have hshown := respond_value hstore o (id_ne_empty hroute) hroute
    cases hget : n.get? ⟨id, .counter⟩ with
    | none =>
      have hnil : ds = [] := (hholds.none_iff id).mp hget
      rw [hget] at hshown
      rw [if_pos hnil]
      exact hshown
    | some x =>
      obtain ⟨d, rfl, hsum⟩ := hholds.sum hget
      have hne : ds ≠ [] := fun hnil => by
        have hnone := (hholds.none_iff id).mpr hnil
        rw [PersistentTable.get?, hnone] at hget
        cases hget
      rw [hget] at hshown
      rw [if_neg hne]
      refine ⟨hshown.1, hshown.2.trans ?_⟩
      rw [Value.display, show d.toInt = ds.sum from hsum]

/-- An update, a batch that overflows at its second metric, an update whose file is torn, and
another update: the first and the last count. -/
theorem updates_count_once_troubled :
    let post (target : String) (body : Bytes) : Occasion × Request :=
      ({ trace := "" }, { method := .post, target, body })
    let requests := [post "/update/counter/polls/5" [],
      post "/updates/" (Bytes.ofText
        "[[\"polls\",\"counter\",1],[\"polls\",\"counter\",9223372036854775807]]"),
      post "/update/counter/polls/100" [], post "/update/counter/polls/-7" []]
    let m : PersistentTable :=
      ⟨.empty, ⟨["metrics.json"], { mishaps := [none, none, some (.torn 3)] }⟩, .immediate⟩
    let s : Server := { store := .persistent m, key := some ⟨[1]⟩ }
    let shown := ((s.serve requests).respond { trace := "" }
      { method := .get, target := "/value/counter/polls" }).response
    (∀ q ∈ requests, q.1.cutOff = none) ∧
      route .get (targetPath "/value/counter/polls") = .found (.valueByPath "counter" "polls") ∧
      s.accepted requests = [⟨"polls", .counter 5⟩, ⟨"polls", .counter (-7)⟩] ∧
      shown.status = 200 ∧ shown.body = Bytes.ofText "-2" := by
  intro post requests m s shown
  have hrequests : ∀ q ∈ requests, q.1.cutOff = none := by simp [requests, post]
  have hroute : route .get (targetPath "/value/counter/polls")
      = .found (.valueByPath "counter" "polls") := by
    decide +kernel
  have haccepted : s.accepted requests = [⟨"polls", .counter 5⟩, ⟨"polls", .counter (-7)⟩] := by
    decide +kernel
  have hshown : if deltas "polls" (m.getAll ++ s.accepted requests) = [] then shown.status = 404
      else shown.status = 200 ∧ shown.body
        = Bytes.ofText (Integer.text (deltas "polls" (m.getAll ++ s.accepted requests)).sum) :=
    (updates_count_once m.table m.file s).2 requests hrequests { trace := "" } _ _ hroute
  have hds : deltas "polls" (m.getAll ++ s.accepted requests) = [5, -7] := by
    rw [haccepted]
    rfl
  rw [hds, if_neg (List.cons_ne_nil _ _)] at hshown
  exact ⟨hrequests, hroute, haccepted, hshown⟩

end Server

end Telemetry.Http
