import BuildMetrics.Proofs.Record.Framed
import BuildMetrics.Proofs.Sink.Requests
import BuildMetrics.Sink.Proxy
import Mathlib.Data.List.Induction

/-!
# Lines on their way to a proxy

The network is one that may refuse to connect, whenever it likes, and whose connections hand over
what is written to them, in order, until they are shut. The requests to a sink fall into sessions,
one between each request to close and the next, and each session in which a record is taken has a
connection of its own.

* `BufferedConnection.write_last`: what waits and what was handed over are in order, however bytes
  are taken;
* `ProxySink.Carries`, `ProxySink.perform_carries`: the invariant, and what a request does to it;
* `ProxySink.delivers_wired`: so the lines of the records that were taken are delivered;
* `ProxySink.dialog_wired`: on networks that always listen, that never do, and on all others.
-/

namespace BuildMetrics

/-! ## The network -/

/-- A connection as the proxy sees it. -/
structure Wire where
  /-- the endpoint that it leads to -/
  endpoint : Endpoint
  /-- what came over it -/
  received : List UInt8
  /-- it was not shut yet -/
  isOpen : Bool
  deriving DecidableEq

/-- What happened on a network. -/
structure Wires where
  /-- how often a connection was asked for -/
  attempts : Nat
  /-- the connections, in the order in which they were opened -/
  opened : List Wire
  deriving DecidableEq

namespace Wires

/-- Nothing happened yet. -/
def empty : Wires := ⟨0, []⟩

/-- What came over each of the connections. -/
def received (w : Wires) : List (List UInt8) := w.opened.map Wire.received

/-- The connection that was opened after `i` others. -/
def link (i : Nat) : Connection (StateM Wires) where
  write bytes := fun w =>
    match w.opened[i]? with
    | some ⟨e, received, true⟩ =>
      (.ok (), { w with opened := w.opened.set i ⟨e, received ++ bytes, true⟩ })
    | _ => (.error "broken pipe", w)
  shut := fun w =>
    ((), { w with opened := w.opened.modify i fun wire => { wire with isOpen := false } })

end Wires

/-- A network that refuses to connect for the reasons it has at each attempt, if any. -/
def Network.wired (refusal : Nat → Option String) : Network (StateM Wires) where
  connect e := fun w =>
    match refusal w.attempts with
    | some reason => (.error reason, { w with attempts := w.attempts + 1 })
    | none => (.ok (Wires.link w.opened.length), ⟨w.attempts + 1, w.opened ++ [⟨e, [], true⟩]⟩)

namespace Wires

variable {n : Nat} {front : List Wire} {e : Endpoint} {got : List UInt8}

theorem write_last (bytes : List UInt8) :
    (link front.length).write bytes ⟨n, front ++ [⟨e, got, true⟩]⟩ =
      (.ok (), ⟨n, front ++ [⟨e, got ++ bytes, true⟩]⟩) := by
  simp [link]

theorem shut_last :
    (link front.length).shut ⟨n, front ++ [⟨e, got, true⟩]⟩ =
      ((), ⟨n, front ++ [⟨e, got, false⟩]⟩) := by
  simp [link, List.modify_eq_take_cons_drop]

end Wires

/-! ## Bytes that wait -/

namespace BufferedConnection

open Wires

variable {n : Nat} {front : List Wire} {e : Endpoint} {got : List UInt8}

theorem flush_last (buffer : List UInt8) :
    flush ⟨link front.length, buffer⟩ ⟨n, front ++ [⟨e, got, true⟩]⟩ =
      (.ok ⟨link front.length, []⟩, ⟨n, front ++ [⟨e, got ++ buffer, true⟩]⟩) := by
  rw [flush]
  cases buffer with
  | nil => rw [List.append_nil]; rfl
  | cons b bs =>
    rw [if_neg (by simp), bind_apply_of (Wires.write_last (b :: bs))]
    rfl

theorem write_last (buffer bytes : List UInt8) :
    ∃ buffer' got', got' ++ buffer' = got ++ buffer ++ bytes ∧
      write ⟨link front.length, buffer⟩ bytes ⟨n, front ++ [⟨e, got, true⟩]⟩ =
        (.ok ⟨link front.length, buffer'⟩, ⟨n, front ++ [⟨e, got', true⟩]⟩) := by
  rw [write]
  by_cases hwaits : bytes.length < capacity - buffer.length
  · refine ⟨buffer ++ bytes, got, (List.append_assoc _ _ _).symm, ?_⟩
    rw [if_pos hwaits]
    rfl
  rw [if_neg hwaits]
  by_cases hroom : capacity - buffer.length < bytes.length
  · rw [if_pos hroom, bind_apply_of (flush_last buffer)]
    by_cases hlarge : capacity ≤ bytes.length
    · refine ⟨[], got ++ buffer ++ bytes, List.append_nil _, ?_⟩
      simp only [if_pos hlarge]
      rw [bind_apply_of (Wires.write_last bytes)]
      rfl
    · refine ⟨bytes, got ++ buffer, rfl, ?_⟩
      simp only [if_neg hlarge]
      rfl
  · rw [if_neg hroom, pure_bind]
    by_cases hlarge : capacity ≤ bytes.length
    · -- there are as many bytes as can wait, so none wait
      have hbuffer : buffer = [] := by
        have hcapacity : capacity = 8192 := rfl
        rw [← List.length_eq_zero_iff]
        omega
      subst hbuffer
      refine ⟨[], got ++ bytes, by simp, ?_⟩
      simp only [if_pos hlarge]
      rw [bind_apply_of (Wires.write_last bytes)]
      rfl
    · refine ⟨buffer ++ bytes, got, (List.append_assoc _ _ _).symm, ?_⟩
      simp only [if_neg hlarge]
      rfl

end BufferedConnection

/-! ## One request -/

namespace ProxySink

open Wires

variable {e : Endpoint} {kept : List SinkRequest} {refusal : Nat → Option String} {n : Nat}

/-- A line that is written has arrived or is held back, in order. -/
theorem writeLine_last {front : List Wire} {got : List UInt8} (r : Record) (buffer : List UInt8) :
    ∃ buffer' got', got' ++ buffer' = got ++ buffer ++ r.frame ∧
      writeLine r ⟨link front.length, buffer⟩ ⟨n, front ++ [⟨e, got, true⟩]⟩ =
        (.ok ⟨link front.length, buffer'⟩, ⟨n, front ++ [⟨e, got', true⟩]⟩) := by
  obtain ⟨waiting, there, hline, hwrite⟩ :=
    @BufferedConnection.write_last n front e got buffer r.lineBytes
  obtain ⟨waiting', there', hnewline, hwrite'⟩ :=
    @BufferedConnection.write_last n front e there waiting [newlineByte]
  refine ⟨waiting', there', ?_, ?_⟩
  · rw [hnewline, hline, Record.frame, List.append_assoc _ r.lineBytes]
  · exact (bind_apply_of hwrite _).trans hwrite'

/-- The wires of sessions that have ended. -/
def wiresOf (e : Endpoint) (sessions : List (List Record)) : List Wire :=
  (sessions.filter fun rs => !rs.isEmpty).map fun rs => ⟨e, Record.frames rs, false⟩

/-- The lines of the records that were taken are on the wires or wait, those of each session on a
wire of its own and in order. There have been `n` attempts to connect. -/
inductive Carries (e : Endpoint) (kept : List SinkRequest) (n : Nat) :
    ProxySink (StateM Wires) × Wires → Prop where
  /-- nothing since the last session -/
  | idle (hcurrent : SinkRequest.current kept = []) :
    Carries e kept n (⟨e, none⟩, ⟨n, wiresOf e (SinkRequest.ended kept)⟩)
  /-- the session that goes on -/
  | busy (hcurrent : SinkRequest.current kept ≠ []) (got buffer : List UInt8)
    (hbytes : got ++ buffer = Record.frames (SinkRequest.current kept)) :
    Carries e kept n
      (⟨e, some ⟨link (wiresOf e (SinkRequest.ended kept)).length, buffer⟩⟩,
        ⟨n, wiresOf e (SinkRequest.ended kept) ++ [⟨e, got, true⟩]⟩)

/-! ### Sending -/

section

variable {S : Type} {net : Network (StateM S)} {r : Record} {s : ProxySink (StateM S)}
  {c c' : BufferedConnection (StateM S)} {w w' w'' : S}

/-- Without a connection nothing is sent. -/
theorem send_of_not_connected {error : SinkError} (h : s.connected net w = (.error error, w')) :
    send net r s w = ((.error error, s), w') :=
  bind_apply_of h _

theorem send_of_connected (h : s.connected net w = (.ok c, w'))
    (hline : writeLine r c w' = (.ok c', w'')) :
    send net r s w = ((.ok (), { s with stream := some c' }), w'') :=
  (bind_apply_of h _).trans (bind_apply_of hline _)

end

/-- A sink without a connection makes an attempt to get one. -/
theorem connected_of_none (h : e.isConfigured = true) (wires : List Wire) :
    connected (.wired refusal) ⟨e, none⟩ ⟨n, wires⟩ =
      match refusal n with
      | some reason => (.error (.connect e.text reason), ⟨n + 1, wires⟩)
      | none => (.ok ⟨link wires.length, []⟩, ⟨n + 1, wires ++ [⟨e, [], true⟩]⟩) := by
  have hconfigured : ¬ (!e.isConfigured) = true := by simp [h]
  simp only [connected, if_neg hconfigured]
  cases hrefusal : refusal n with
  | some reason =>
    have hconnect : (Network.wired refusal).connect e ⟨n, wires⟩ =
        (.error reason, ⟨n + 1, wires⟩) := by
      simp only [Network.wired, hrefusal]
    exact bind_apply_of hconnect _
  | none =>
    have hconnect : (Network.wired refusal).connect e ⟨n, wires⟩ =
        (.ok (link wires.length), ⟨n + 1, wires ++ [⟨e, [], true⟩]⟩) := by
      simp only [Network.wired, hrefusal]
    exact bind_apply_of hconnect _

/-- What a request is answered. -/
def answer (refusal : Nat → Option String) (e : Endpoint) (kept : List SinkRequest) (n : Nat) :
    SinkRequest → Outcome
  | .send _ =>
    match SinkRequest.current kept, refusal n with
    | [], some reason => .error (.connect e.text reason)
    | _, _ => .ok ()
  | .flush => .ok ()
  | .close => .ok ()

variable {state : ProxySink (StateM Wires) × Wires}

theorem perform_send (h : e.isConfigured = true) (hstate : Carries e kept n state) (r : Record) :
    ∃ state', joined (send (.wired refusal) r) state = (answer refusal e kept n (.send r), state') ∧
      Carries e (kept ++ if (answer refusal e kept n (.send r)).isOk then [.send r] else [])
        (n + (SinkRequest.opens kept (.send r)).toNat) state' := by
  have hended := SinkRequest.ended_append_send kept r
  have hcurrent' := SinkRequest.current_append_send kept r
  have hne : SinkRequest.current (kept ++ [.send r]) ≠ [] := by simp [hcurrent']
  cases hstate with
  | idle hcurrent =>
    have hopens : (SinkRequest.opens kept (.send r)).toNat = 1 := by
      simp [SinkRequest.opens, hcurrent]
    have hconnected := @connected_of_none e refusal n h (wiresOf e (SinkRequest.ended kept))
    rw [hopens]
    cases hrefusal : refusal n with
    | some reason =>
      have hanswer : answer refusal e kept n (.send r) = .error (.connect e.text reason) := by
        simp only [answer, hcurrent, hrefusal]
      rw [hrefusal] at hconnected
      rw [hanswer, if_neg (by simp [Outcome.isOk]), List.append_nil]
      exact ⟨_, joined_of (send_of_not_connected hconnected), .idle hcurrent⟩
    | none =>
      have hanswer : answer refusal e kept n (.send r) = .ok () := by
        simp only [answer, hcurrent, hrefusal]
      rw [hrefusal] at hconnected
      obtain ⟨buffer, got, hbytes, hline⟩ := @writeLine_last e (n + 1)
        (wiresOf e (SinkRequest.ended kept)) [] r []
      have hframes : got ++ buffer = Record.frames (SinkRequest.current (kept ++ [.send r])) := by
        rw [hcurrent', hcurrent, hbytes, List.nil_append, List.nil_append, List.nil_append,
          Record.frames_singleton]
      have hbusy := @Carries.busy e _ (n + 1) hne got buffer hframes
      rw [hended] at hbusy
      rw [hanswer]
      exact ⟨_, joined_of (send_of_connected hconnected hline), hbusy⟩
  | busy hcurrent got buffer hbytes =>
    -- the connection is there, so it does not matter what the network would say now
    have hopens : (SinkRequest.opens kept (.send r)).toNat = 0 := by
      simp [SinkRequest.opens, hcurrent]
    have hanswer : answer refusal e kept n (.send r) = .ok () := by
      cases hsession : SinkRequest.current kept with
      | nil => exact absurd hsession hcurrent
      | cons r rs => simp only [answer, hsession]
    obtain ⟨buffer', got', hbytes', hline⟩ := @writeLine_last e n
      (wiresOf e (SinkRequest.ended kept)) got r buffer
    have hframes : got' ++ buffer' = Record.frames (SinkRequest.current (kept ++ [.send r])) := by
      rw [hcurrent', Record.frames_append, Record.frames_singleton, ← hbytes, hbytes']
    have hbusy := @Carries.busy e _ n hne got' buffer' hframes
    rw [hended] at hbusy
    rw [hopens, hanswer]
    exact ⟨_, joined_of (send_of_connected rfl hline), hbusy⟩

/-! ### Delivering and letting go -/

/-- A session without records leaves no connection behind. -/
theorem wiresOf_append (sessions : List (List Record)) (rs : List Record) :
    wiresOf e (sessions ++ [rs]) =
      wiresOf e sessions ++ if rs.isEmpty then [] else [⟨e, Record.frames rs, false⟩] := by
  rw [wiresOf, List.filter_append, List.map_append]
  cases rs <;> rfl

/-- Flushing makes no difference to what has arrived in the end. -/
theorem Carries.append_flush (hstate : Carries e kept n state) :
    Carries e (kept ++ [.flush]) n state := by
  have hended := SinkRequest.ended_append_flush kept
  have hcurrent' := SinkRequest.current_append_flush kept
  cases hstate with
  | idle hcurrent =>
    rw [← hended]
    exact .idle (hcurrent'.trans hcurrent)
  | busy hcurrent got buffer hbytes =>
    rw [← hended]
    rw [← hcurrent'] at hcurrent hbytes
    exact .busy hcurrent got buffer hbytes

/-- To deliver is always possible, and afterwards nothing waits. -/
theorem flush_carries (hstate : Carries e kept n state) :
    ∃ state', joined flush state = (.ok (), state') ∧ Carries e kept n state' ∧
      state'.2.received = (SinkRequest.groups kept).map Record.frames := by
  have hgroups : (SinkRequest.groups kept).map Record.frames =
      (wiresOf e (SinkRequest.ended kept ++ [SinkRequest.current kept])).map Wire.received := by
    rw [SinkRequest.groups_eq, wiresOf, List.map_map]
    rfl
  rw [hgroups, wiresOf_append]
  cases hstate with
  | idle hcurrent =>
    refine ⟨_, rfl, .idle hcurrent, ?_⟩
    rw [hcurrent, if_pos List.isEmpty_nil, List.append_nil]
    rfl
  | busy hcurrent got buffer hbytes =>
    have hflush :=
      @BufferedConnection.flush_last n (wiresOf e (SinkRequest.ended kept)) e got buffer
    refine ⟨_, joined_of (bind_apply_of hflush _), .busy hcurrent (got ++ buffer) [] ?_, ?_⟩
    · rw [List.append_nil, hbytes]
    · rw [if_neg (by simp [hcurrent])]
      simp [received, hbytes]

/-- To let go is always possible, and afterwards all wires are shut. -/
theorem close_carries (hstate : Carries e kept n state) :
    joined close state =
      (.ok (), ⟨e, none⟩,
        ⟨n, wiresOf e (SinkRequest.ended kept ++ [SinkRequest.current kept])⟩) := by
  rw [wiresOf_append]
  cases hstate with
  | idle hcurrent =>
    rw [hcurrent, if_pos List.isEmpty_nil, List.append_nil]
    rfl
  | busy hcurrent got buffer hbytes =>
    have hflush :=
      @BufferedConnection.flush_last n (wiresOf e (SinkRequest.ended kept)) e got buffer
    have hflushed : flush ⟨e, some ⟨link (wiresOf e (SinkRequest.ended kept)).length, buffer⟩⟩
        ⟨n, wiresOf e (SinkRequest.ended kept) ++ [⟨e, got, true⟩]⟩ =
          ((.ok (), ⟨e, some ⟨link (wiresOf e (SinkRequest.ended kept)).length, []⟩⟩),
            ⟨n, wiresOf e (SinkRequest.ended kept) ++ [⟨e, got ++ buffer, true⟩]⟩) :=
      bind_apply_of hflush _
    rw [if_neg (by simp [hcurrent]), ← hbytes]
    exact joined_of ((bind_apply_of hflushed _).trans (bind_apply_of shut_last _))

/-- **What a request does to a sink and the network.** -/
theorem perform_carries (h : e.isConfigured = true) (hstate : Carries e kept n state)
    (request : SinkRequest) :
    ∃ state', (sink (.wired refusal)).joined.perform request state =
        (answer refusal e kept n request, state') ∧
      Carries e (kept ++ if (answer refusal e kept n request).isOk then [request] else [])
        (n + (SinkRequest.opens kept request).toNat) state' := by
  cases request with
  | send r => exact perform_send h hstate r
  | flush =>
    obtain ⟨state', hflush, hstate', -⟩ := flush_carries hstate
    exact ⟨state', hflush, hstate'.append_flush⟩
  | close =>
    refine ⟨_, close_carries hstate, ?_⟩
    have hidle := @Carries.idle e (kept ++ [.close]) n (SinkRequest.current_append_close kept)
    rwa [SinkRequest.ended_append_close] at hidle

/-! ## Requests one after the other -/

/-- What a new sink answered to some requests, and how it and the network are left. -/
structure Dialog where
  /-- the answers -/
  outcomes : List Outcome
  /-- the sink -/
  sink : ProxySink (StateM Wires)
  /-- the network -/
  wires : Wires

/-- Makes requests to a new sink on a network on which nothing happened yet. -/
def dialog (net : Network (StateM Wires)) (e : Endpoint) (requests : List SinkRequest) : Dialog :=
  let (outcomes, sink, wires) := (sink net).joined.performAll requests (ofEndpoint e, .empty)
  ⟨outcomes, sink, wires⟩

/-- A dialog is all requests, one after the other, to a sink that was just made. -/
theorem performAll_eq_dialog (net : Network (StateM Wires)) (requests : List SinkRequest) :
    (sink net).joined.performAll requests (ofEndpoint e, .empty) =
      ((dialog net e requests).outcomes, (dialog net e requests).sink,
        (dialog net e requests).wires) :=
  rfl

/-- Each request is answered. -/
theorem length_outcomes_dialog (net : Network (StateM Wires)) (requests : List SinkRequest) :
    (dialog net e requests).outcomes.length = requests.length :=
  Sink.length_performAll _ _ _

/-- A dialog goes on from where it was. -/
theorem dialog_append (net : Network (StateM Wires)) (requests : List SinkRequest)
    {request : SinkRequest} {outcome : Outcome} {state' : ProxySink (StateM Wires) × Wires}
    (h : (sink net).joined.perform request
      ((dialog net e requests).sink, (dialog net e requests).wires) = (outcome, state')) :
    dialog net e (requests ++ [request]) =
      ⟨(dialog net e requests).outcomes ++ [outcome], state'.1, state'.2⟩ := by
  have hrun : (sink net).joined.performAll (requests ++ [request]) (ofEndpoint e, .empty) =
      ((dialog net e requests).outcomes ++ [outcome], state') :=
    Sink.performAll_append_of rfl h
  rw [dialog, hrun]

theorem Carries.attempts_eq (hstate : Carries e kept n state) : state.2.attempts = n := by
  cases hstate <;> rfl

/-- A sink is connected if it has sent records since it was last closed. -/
theorem Carries.isConnected_eq (hstate : Carries e kept n state) :
    state.1.isConnected = !(SinkRequest.current kept).isEmpty := by
  cases hstate with
  | idle hcurrent => rw [hcurrent]; rfl
  | busy hcurrent => rw [List.isEmpty_eq_false_iff.mpr hcurrent]; rfl

/-- There is one connection for each group of records. -/
theorem Carries.length_opened (hstate : Carries e kept n state) :
    state.2.opened.length = (SinkRequest.groups kept).length := by
  rw [SinkRequest.groups_eq, List.filter_append, List.length_append]
  cases hstate with
  | idle hcurrent =>
    rw [hcurrent]
    exact List.length_map _
  | busy hcurrent =>
    rw [List.filter_cons_of_pos (by simp [hcurrent]), List.length_append, wiresOf, List.length_map]
    rfl

/-- After any requests, the connections carry what was taken. -/
theorem dialog_carries (h : e.isConfigured = true) (requests : List SinkRequest) :
    Carries e (SinkRequest.taken requests (dialog (.wired refusal) e requests).outcomes)
      (dialog (.wired refusal) e requests).wires.attempts
      ((dialog (.wired refusal) e requests).sink, (dialog (.wired refusal) e requests).wires) := by
  induction requests using List.reverseRecOn with
  | nil => exact .idle rfl
  | append_singleton requests request ih =>
    obtain ⟨state', hperform, hstate'⟩ := perform_carries h ih request
    rw [dialog_append (.wired refusal) requests hperform]
    show Carries e _ state'.2.attempts state'
    rw [SinkRequest.taken_append (length_outcomes_dialog _ requests), hstate'.attempts_eq]
    exact hstate'

/-- One request more. -/
theorem dialog_append_singleton (h : e.isConfigured = true) (requests : List SinkRequest)
    (request : SinkRequest) :
    let d := dialog (.wired refusal) e requests
    let kept := SinkRequest.taken requests d.outcomes
    let d' := dialog (.wired refusal) e (requests ++ [request])
    d'.outcomes = d.outcomes ++ [answer refusal e kept d.wires.attempts request] ∧
      d'.wires.attempts = d.wires.attempts + (SinkRequest.opens kept request).toNat := by
  obtain ⟨state', hperform, hstate'⟩ :=
    @perform_carries e _ refusal _ _ h (dialog_carries h requests) request
  simp only [dialog_append (.wired refusal) requests hperform]
  exact ⟨trivial, hstate'.attempts_eq⟩

/-- The records that were taken are delivered, those of each session on a connection of its own. -/
structure Delivers (net : Network (StateM Wires)) (e : Endpoint)
    (requests kept : List SinkRequest) : Prop where
  /-- a connection is open as long as a session goes on -/
  isConnected_eq :
    (dialog net e requests).sink.isConnected = !(SinkRequest.current kept).isEmpty
  /-- a connection is asked for exactly when a session begins -/
  attempts_eq (request : SinkRequest) :
    (dialog net e (requests ++ [request])).wires.attempts =
      (dialog net e requests).wires.attempts + (SinkRequest.opens kept request).toNat
  /-- there is a connection for each group of records -/
  length_opened :
    (dialog net e requests).wires.opened.length = (SinkRequest.groups kept).length
  /-- all lines have arrived after a flush -/
  received_flush :
    (dialog net e (requests ++ [.flush])).wires.received =
      (SinkRequest.groups kept).map Record.frames
  /-- all lines have arrived and all connections are shut when the sink is let go -/
  opened_close :
    (dialog net e (requests ++ [.close])).wires.opened =
      (SinkRequest.groups kept).map fun rs => ⟨e, Record.frames rs, false⟩

/-- What was taken is what arrives, whichever attempts are refused. -/
theorem delivers_wired (h : e.isConfigured = true) (refusal : Nat → Option String)
    (requests : List SinkRequest) :
    Delivers (.wired refusal) e requests
      (SinkRequest.taken requests (dialog (.wired refusal) e requests).outcomes) := by
  have hstate := @dialog_carries e refusal h requests
  obtain ⟨state', hflush, -, hreceived⟩ := flush_carries hstate
  have hclose := close_carries hstate
  have hlast := @dialog_append e (.wired refusal) requests
  refine ⟨hstate.isConnected_eq, fun request => (dialog_append_singleton h requests request).2,
    hstate.length_opened, ?_, ?_⟩
  · rw [@hlast .flush _ _ hflush]
    exact hreceived
  · rw [@hlast .close _ _ hclose, SinkRequest.groups_eq]
    rfl

/-- If every request succeeded, everything that was sent is delivered. -/
theorem opened_of_all_isOk (h : e.isConfigured = true) {requests : List SinkRequest}
    (hall : (dialog (.wired refusal) e (requests ++ [.close])).outcomes.all Outcome.isOk = true) :
    (dialog (.wired refusal) e (requests ++ [.close])).wires.opened =
      (SinkRequest.groups requests).map fun rs => ⟨e, Record.frames rs, false⟩ := by
  have htaken : SinkRequest.taken requests (dialog (.wired refusal) e requests).outcomes =
      requests := by
    refine SinkRequest.taken_of_forall_isOk (length_outcomes_dialog _ _) fun outcome hmem => ?_
    rw [(dialog_append_singleton h requests .close).1, List.all_append, Bool.and_eq_true,
      List.all_eq_true] at hall
    exact Outcome.isOk_iff.mp (hall.1 outcome hmem)
  have hopened := (delivers_wired h refusal requests).opened_close
  rwa [htaken] at hopened

/-! ### Networks that always listen, and networks that never do -/

theorem answer_of_listening (request : SinkRequest) :
    answer (fun _ => none) e kept n request = .ok () := by
  cases request with
  | send r => cases hcurrent : SinkRequest.current kept <;> simp only [answer, hcurrent]
  | flush => rfl
  | close => rfl

/-- Where every attempt succeeds, every request does. -/
theorem outcomes_of_listening (h : e.isConfigured = true) (requests : List SinkRequest) :
    ∀ outcome ∈ (dialog (.wired fun _ => none) e requests).outcomes, outcome = .ok () := by
  induction requests using List.reverseRecOn with
  | nil => exact fun outcome hmem => absurd hmem List.not_mem_nil
  | append_singleton requests request ih =>
    rw [(dialog_append_singleton h requests request).1, answer_of_listening]
    exact List.forall_mem_append.mpr ⟨ih, by simp⟩

/-- Where every attempt succeeds, all that is sent arrives. -/
theorem delivers_listening (h : e.isConfigured = true) (requests : List SinkRequest) :
    Delivers (.wired fun _ => none) e requests requests := by
  have hdelivers := delivers_wired h (fun _ => none) requests
  rwa [SinkRequest.taken_of_forall_isOk (length_outcomes_dialog _ requests)
    (outcomes_of_listening h requests)] at hdelivers

/-- Only to take a record can fail. -/
theorem answer_of_record?_eq_none {request : SinkRequest} (h : request.record? = none) :
    answer refusal e kept n request = .ok () := by
  cases request with
  | send r => cases h
  | flush => rfl
  | close => rfl

/-- A record for which no connection can be had is answered with an error. -/
theorem answer_of_refusing {request : SinkRequest} {r : Record} {reason : String}
    (h : request.record? = some r) (hcurrent : SinkRequest.current kept = [])
    (hrefusal : refusal n = some reason) :
    answer refusal e kept n request = .error (.connect e.text reason) := by
  cases request with
  | send r => simp only [answer, hcurrent, hrefusal]
  | flush => cases h
  | close => cases h

/-- Where every attempt is refused, nothing arrives, and an attempt is made for each record. -/
theorem dialog_of_refusing (h : e.isConfigured = true) (reason : Nat → String)
    (requests : List SinkRequest) :
    let d := dialog (.wired fun n => some (reason n)) e requests
    d.outcomes.map Outcome.isOk = requests.map (fun request => request.record?.isNone) ∧
      SinkRequest.current (SinkRequest.taken requests d.outcomes) = [] ∧
      SinkRequest.groups (SinkRequest.taken requests d.outcomes) = [] := by
  induction requests using List.reverseRecOn with
  | nil => exact ⟨rfl, rfl, rfl⟩
  | append_singleton requests request ih =>
    obtain ⟨houtcomes, hcurrent, hgroups⟩ := ih
    have hlength :=
      @length_outcomes_dialog e (.wired fun n => some (reason n)) requests
    dsimp only
    rw [(dialog_append_singleton h requests request).1, List.map_append, List.map_append, houtcomes,
      SinkRequest.taken_append hlength]
    cases hrecord : request.record? with
    | none =>
      have hlen := SinkRequest.length_groups_append
        (SinkRequest.taken requests (dialog (.wired fun n => some (reason n)) e requests).outcomes)
        request
      rw [SinkRequest.opens_of_record?_eq_none hrecord, hgroups] at hlen
      rw [answer_of_record?_eq_none hrecord]
      refine ⟨?_, SinkRequest.current_append_of_record?_eq_none hrecord hcurrent,
        List.length_eq_zero_iff.mp hlen⟩
      rw [List.map_singleton, List.map_singleton, hrecord]
      rfl
    | some r =>
      -- no session goes on, so a connection is needed and refused
      rw [answer_of_refusing hrecord hcurrent rfl, if_neg (by simp [Outcome.isOk]), List.append_nil]
      refine ⟨?_, hcurrent, hgroups⟩
      rw [List.map_singleton, List.map_singleton, hrecord]
      rfl

/-- Requests that send no record succeed. -/
theorem outcome_of_record?_eq_none (h : e.isConfigured = true) (requests : List SinkRequest) :
    ∀ p ∈ requests.zip (dialog (.wired refusal) e requests).outcomes,
      p.1.record? = none → p.2 = .ok () := by
  induction requests using List.reverseRecOn with
  | nil => exact fun p hmem => absurd hmem List.not_mem_nil
  | append_singleton requests request ih =>
    have hlength := @length_outcomes_dialog e (.wired refusal) requests
    rw [(dialog_append_singleton h requests request).1, List.zip_append hlength.symm]
    refine List.forall_mem_append.mpr ⟨ih, ?_⟩
    intro p hp
    obtain rfl := List.mem_singleton.mp hp
    exact answer_of_record?_eq_none

/-- **Each line that was taken arrives once, on the connection of its session and in its place
there, and no others do.** If the proxy always listens, every request succeeds; if it never does, no
record is taken. -/
theorem dialog_wired (h : e.isConfigured = true) (refusal : Nat → Option String)
    (reason : Nat → String) (requests : List SinkRequest) :
    (let net := Network.wired fun _ => none;
      Delivers net e requests requests ∧
      (∀ outcome ∈ (dialog net e requests).outcomes, outcome = .ok ()) ∧
      ∀ request, (dialog net e (requests ++ [request])).wires.opened.length =
        (dialog net e requests).wires.opened.length +
          (SinkRequest.opens requests request).toNat) ∧
    (let d := dialog (.wired fun n => some (reason n)) e requests;
      d.outcomes.map Outcome.isOk = requests.map (fun request => request.record?.isNone) ∧
      d.sink.isConnected = false ∧
      d.wires.opened = []) ∧
    (let d := dialog (.wired refusal) e requests;
      Delivers (.wired refusal) e requests (SinkRequest.taken requests d.outcomes) ∧
      ∀ p ∈ requests.zip d.outcomes, p.1.record? = none → p.2 = .ok ()) := by
  refine ⟨⟨delivers_listening h requests, outcomes_of_listening h requests, ?_⟩, ?_,
    delivers_wired h refusal requests, outcome_of_record?_eq_none h requests⟩
  · intro request
    rw [(delivers_listening h _).length_opened, (delivers_listening h _).length_opened,
      SinkRequest.length_groups_append]
  · have hdelivers := delivers_wired h (fun n => some (reason n)) requests
    obtain ⟨houtcomes, hcurrent, hgroups⟩ := dialog_of_refusing h reason requests
    refine ⟨houtcomes, ?_, ?_⟩
    · rw [hdelivers.isConnected_eq, hcurrent]
      rfl
    · rw [← List.length_eq_zero_iff, hdelivers.length_opened, hgroups]
      rfl

/-- A record without tags. -/
def beat (time : Millis) : Record := ⟨"beat", 1, time, "host", .empty .default⟩

/-- Two sessions with a session between them in which there is nothing to send. -/
def interruptedRequests : List SinkRequest :=
  [.send (beat 1), .flush, .send (beat 2), .close, .flush, .close, .send (beat 3)]

/-- Two groups of records with a close between them. -/
theorem dialog_wired_interrupted :
    Endpoint.isConfigured ⟨"proxy", 2878⟩ = true ∧
    (dialog (.wired fun _ => none) ⟨"proxy", 2878⟩ (interruptedRequests ++ [.close])).wires.opened =
      [⟨⟨"proxy", 2878⟩, Record.frames [beat 1, beat 2], false⟩,
        ⟨⟨"proxy", 2878⟩, Record.frames [beat 3], false⟩] := by
  have hconfigured : Endpoint.isConfigured ⟨"proxy", 2878⟩ = true := by decide
  obtain ⟨⟨hdelivers, -⟩, -⟩ :=
    dialog_wired hconfigured (fun _ => none) (fun _ => "connection refused") interruptedRequests
  exact ⟨hconfigured, hdelivers.opened_close⟩

end ProxySink

end BuildMetrics
