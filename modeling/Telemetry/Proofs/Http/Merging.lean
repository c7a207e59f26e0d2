import Telemetry.Proofs.Http.Deliveries
import Telemetry.Proofs.Metric.Documents
import Telemetry.Proofs.Store.Contents

/-!
# What an update merges

The request of a delivery gives the metrics of the delivery, but for levels, of which a document
gives what their digits are read as, and for names, of which a path gives what the address keeps.

An answer of success has merged all the metrics that the request gives into the table that the
store shows. Any other answer may have merged some of them, from the front, but not the last: those
before one that was refused. An answer that comes too late may have merged them all nevertheless,
since a request that waits in front of a file is cut off after its change of the table.

## Main definitions

* `Telemetry.Agent.Delivery.Gives` — what a delivery gives a server
* `Telemetry.Http.Merged` — what an answer has merged of the metrics that a request gives

## Main results

* `Telemetry.Http.Server.gives_of_metrics?` — the request of a delivery gives what the delivery does
* `Telemetry.Http.Handled.merges` — what a call merges that is an update
* `Telemetry.Http.Server.respond_merges` — what the request of a delivery merges
-/

namespace Telemetry

open Agent (Courier Delivery)

/-- What a delivery gives a server: a document what it is read as, and a path its metric under what
the address keeps of the name. -/
inductive Agent.Delivery.Gives : Delivery → List Metric → Prop
  | document {m m' : Metric} (h : m.ReadsAs m') : Gives (.document m) [m']
  | batch {ms ms' : List Metric} (h : List.Forall₂ Metric.ReadsAs ms ms') : Gives (.batch ms) ms'
  | path {m : Metric} {kept : String} (h : Url.kept? m.id = some kept)
      (hfinite : m.value.isFinite = true) : Gives (.path m) [⟨kept, m.value⟩]

namespace Http

/-! ### What the requests of a delivery give -/

namespace Server

variable {courier : Courier} {m : Metric} {d : Delivery}

/-- What is given by a path. -/
theorem gives_of_path (ht : courier.base.IsRoot) {body : Bytes} {ms : List Metric}
    (h : (courier.request (.path m)).received.metricsIn? body = some ms) :
    (Delivery.path m).Gives ms := by
  obtain ⟨hdisplay, hempty⟩ := keeps_display m.value
  cases hkept : Url.kept? m.id with
  | none =>
    rcases route_dropped ht (keeps_word m.kind) hdisplay hempty hkept with hroute | hroute
    · rw [Request.metricsIn?_of_nowhere (r := (courier.request (.path m)).received) hroute] at h
      cases h
    · rw [Request.metricsIn?_of_found (r := (courier.request (.path m)).received) hroute] at h
      cases h
  | some kept =>
    have hroute := route_updateByPath ht (keeps_word m.kind) hdisplay hempty hkept
    rw [Request.metricsIn?_of_found (r := (courier.request (.path m)).received) hroute,
      Call.metrics?, Draft.key?_word (Url.ne_empty_of_kept? hkept)] at h
    cases hread : Value.read m.kind m.value.display with
    | error e =>
      simp only [Except.toOption, bind, Option.bind_some, hread] at h
      cases h
    | ok v =>
      obtain ⟨rfl, hfinite⟩ := Value.eq_of_read_display hread
      simp only [Except.toOption, bind, Option.bind_some, hread] at h
      cases h
      exact .path hkept hfinite

/-- **What the request of a delivery gives** is what the delivery gives. -/
theorem gives_of_metrics? (ht : courier.base.IsRoot) {ms : List Metric}
    (h : (courier.request d).received.metrics? = some ms) : d.Gives ms := by
  cases d with
  | document m =>
    have hbody : decodeRequest (courier.request (.document m)).received
        = some ⟨Wire.encode m, true⟩ := decodeRequest_document _ _
    rw [Request.metrics?, hbody, Option.filter_some_pos rfl, Option.bind_some,
      Request.metricsIn?_of_found (r := (courier.request (.document m)).received)
        (route_updateOne ht), Call.metrics?] at h
    split at h
    · rename_i hd
      obtain ⟨m', hm', rfl⟩ := Option.map_eq_some_iff.mp h
      exact .document (Wire.readsAs_of_decodeDraft hd (toOption_eq_some_iff.mp hm'))
    · cases h
  | batch ms =>
    have hbody : decodeRequest (courier.request (.batch ms)).received
        = some ⟨Wire.encodeAll ms, true⟩ := decodeRequest_document _ _
    rw [Request.metrics?, hbody, Option.filter_some_pos rfl, Option.bind_some,
      Request.metricsIn?_of_found (r := (courier.request (.batch ms)).received)
        (route_updateMany ht), Call.metrics?] at h
    split at h
    · rename_i hds
      exact .batch (Wire.readsAs_of_decodeDrafts hds (toOption_eq_some_iff.mp h))
    · cases h
  | path m =>
    rw [Request.metrics?, decodeRequest_path, Option.filter_some_pos rfl, Option.bind_some] at h
    exact gives_of_path ht h

end Server

/-! ### What an update merges -/

/-- What an answer has merged of the metrics that a request gives: all of them if it is one of
success, and otherwise a part of them, from the front and without the last. If it comes too late it
may be all of them as well. -/
structure Merged (given? : Option (List Metric)) (success late : Prop) (part : List Metric) :
    Prop where
  all : success → given? = some part
  front : ¬ success → part <+: (given?.getD []).dropLast ∨ late ∧ given? = some part

/-- A part that was merged comes from the front, whatever the answer is. -/
theorem Merged.isPrefix {given? : Option (List Metric)} {success late : Prop} {part : List Metric}
    (h : Merged given? success late part) : part <+: given?.getD [] := by
  have hall : given? = some part → part <+: given?.getD [] := fun hgiven => by
    rw [hgiven]
    exact List.prefix_rfl
  by_cases hs : success
  · exact hall (h.all hs)
  · rcases h.front hs with hfront | ⟨-, hgiven⟩
    · exact hfront.trans (List.dropLast_prefix _)
    · exact hall hgiven

variable {b : Store} {t : Table} {ms : List Metric}

theorem merges_conclude {α : Type} {f : Store.Finished α} (h : Store.Merges t ms f)
    {good : α → Response} {bad : StoreError → Response} (htells : Tells good bad) :
    let a := conclude f good bad
    ∃ part rs u, t.Merges part rs u ∧ a.2.Shows u ∧
      Merged (some ms) (Succeeds a.status) (a.status = 408) part := by
  intro a
  have hleft : a.2 = f.2 := conclude_snd f good bad
  rw [hleft]
  cases hf : f.1 with
  | returned r =>
    cases r with
    | ok x =>
      obtain ⟨rs, u, hmerges, hu⟩ := h.success x hf
      have hsuccess : Succeeds a.status := (succeeds_conclude htells f).mpr (by rw [hf]; rfl)
      exact ⟨ms, rs, u, hmerges, hu, fun _ => rfl, fun hnot => absurd hsuccess hnot⟩
    | error e =>
      obtain ⟨u, ⟨part, rs, hpart, hmerges⟩, hu⟩ := h.failure e hf
      have hfailed : ¬ Succeeds a.status := not_succeeds_of_returned htells (by simp [hf])
      exact ⟨part, rs, u, hmerges, hu, fun hsuccess => absurd hsuccess hfailed, fun _ => .inl hpart⟩
  | abandoned =>
    have hfailed : ¬ Succeeds a.status := not_succeeds_of_returned htells (by simp [hf])
    have hlate : a.status = 408 := status_of_abandoned hf good bad
    obtain ⟨u, rfl | ⟨rs, hmerges⟩, hu⟩ := h.abandoned hf
    · exact ⟨[], [], u, .nil u, hu, fun hsuccess => absurd hsuccess hfailed,
        fun _ => .inl List.nil_prefix⟩
    · exact ⟨ms, rs, u, hmerges, hu, fun hsuccess => absurd hsuccess hfailed,
        fun _ => .inr ⟨hlate, rfl⟩⟩

/-- **What a call merges that is an update**, if the store shows a table. -/
theorem Handled.merges (hb : b.Shows t) {deadline : Option Deadline}
    {asked? : Option Telemetry.Call} {a : Answer} (h : Handled b deadline asked? a)
    {given? : Option (List Metric)} (hgiven : ∀ q, asked? = some q → given? = some q.metrics) :
    ∃ part rs u, t.Merges part rs u ∧ a.2.Shows u ∧
      Merged given? (Succeeds a.status) (a.status = 408) part := by
  cases h with
  | refused hr =>
    exact ⟨[], [], t, .nil t, hb, fun hsuccess => absurd hsuccess (not_succeeds hr),
      fun _ => .inl List.nil_prefix⟩
  | save hm htells =>
    rw [hgiven _ rfl]
    exact merges_conclude (hb.save deadline hm) htells
  | saveAll hms htells =>
    rw [hgiven _ rfl]
    exact merges_conclude (hb.saveAll deadline hms) htells

namespace Server

variable {s : Server} {courier : Courier}

/-- The request of a delivery is an update, but for a path of which the address keeps no name. -/
theorem isUpdate_or_dropped (ht : courier.base.IsRoot) (d : Delivery) :
    (courier.request d).received.isUpdate = true ∨ ∃ m, d = .path m ∧ Url.kept? m.id = none := by
  cases d with
  | document m =>
    have hroute := route_updateOne ht
    exact .inl (isUpdate_of_found (r := (courier.request (.document m)).received) hroute).symm
  | batch ms =>
    have hroute := route_updateMany ht
    exact .inl (isUpdate_of_found (r := (courier.request (.batch ms)).received) hroute).symm
  | path m =>
    cases hkept : Url.kept? m.id with
    | none => exact .inr ⟨m, rfl, hkept⟩
    | some kept =>
      obtain ⟨hdisplay, hempty⟩ := keeps_display m.value
      have hroute := route_updateByPath ht (keeps_word m.kind) hdisplay hempty hkept
      exact .inl (isUpdate_of_found (r := (courier.request (.path m)).received) hroute).symm

/-- **What the request of a delivery merges** into the table that the store of a server shows. -/
theorem respond_merges (hs : s.store.Shows t) (ht : courier.base.IsRoot) (o : Occasion)
    (d : Delivery) :
    let reply := s.respond o (courier.request d).received
    reply.server = { s with store := reply.server.store } ∧
      ∃ part rs u, t.Merges part rs u ∧ reply.server.store.Shows u ∧
        Merged (courier.request d).received.metrics? (Succeeds reply.response.status)
          (reply.response.status = 408) part := by
  intro reply
  rcases isUpdate_or_dropped ht d with hupdate | ⟨m, rfl, hkept⟩
  · obtain ⟨a, hhandled, hstatus, hserver⟩ := s.respond_update o hupdate
    obtain ⟨part, rs, u, hmerges, hu, hmerged⟩ :=
      hhandled.merges hs fun q hq => metrics?_of_asks? rfl hq
    have hstore : reply.server.store = a.2 := congrArg Server.store hserver
    refine ⟨by rw [hstore]; exact hserver, part, rs, u, hmerges, by rwa [hstore], ?_⟩
    rwa [show reply.response.status = a.status from hstatus]
  · obtain ⟨hstatus, hserver⟩ := respond_dropped s o ht hkept
    have hfailed : ¬ Succeeds reply.response.status := by
      rw [show reply.response.status = 404 from hstatus]
      decide
    rw [show reply.server = s from hserver]
    exact ⟨rfl, [], [], t, .nil t, hs, fun hsuccess => absurd hsuccess hfailed,
      fun _ => .inl List.nil_prefix⟩

end Server

end Http
end Telemetry
