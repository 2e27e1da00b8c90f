import BuildMetrics.Proofs.Sink.Calls

/-!
# Requests to a sink

What is asked of a sink, one request after the other, and what it answers. A report of a run asks
it to take each record that is not too long, and then to deliver them.

* `Sink.performAll_append`: requests can be made in parts;
* `emit_eq_performAll`: sending records is to make the requests for those that are not too long.
-/

namespace BuildMetrics

/-- What follows an action goes on with what that gave and where it left the world. -/
theorem bind_apply_of {S α β : Type} {action : StateM S α} {w w' : S} {a : α}
    (h : action w = (a, w')) (next : α → StateM S β) : (action >>= next) w = next a w' := by
  show next (action w).1 (action w).2 = next a w'
  rw [h]

theorem Outcome.isOk_iff {outcome : Outcome} : outcome.isOk = true ↔ outcome = .ok () := by
  cases outcome with
  | ok u => exact ⟨fun _ => rfl, fun _ => rfl⟩
  | error e => exact ⟨fun h => (by cases h), fun h => (by cases h)⟩

/-- What can be asked of a sink. -/
inductive SinkRequest where
  /-- to take a record -/
  | send (r : Record)
  /-- to deliver what it took -/
  | flush
  /-- to let go of everything -/
  | close

namespace SinkRequest

/-- The request is to let go of everything. -/
def isClose : SinkRequest → Bool
  | send _ => false
  | flush => false
  | close => true

/-- The record that is to be taken. -/
def record? : SinkRequest → Option Record
  | send r => some r
  | flush => none
  | close => none

/-- The records that are to be taken. -/
def records (requests : List SinkRequest) : List Record := requests.filterMap record?

/-- The requests to take records. -/
def sends (rs : List Record) : List SinkRequest := rs.map .send

theorem sends_cons (r : Record) (rs : List Record) : sends (r :: rs) = .send r :: sends rs :=
  List.map_cons

theorem records_sends (rs : List Record) : records (sends rs) = rs := by
  rw [records, sends, List.filterMap_map]
  exact List.filterMap_some

theorem isClose_of_mem_sends {rs : List Record} {request : SinkRequest} (h : request ∈ sends rs) :
    request.isClose = false := by
  obtain ⟨r, -, rfl⟩ := List.mem_map.mp h
  rfl

theorem records_append (requests requests' : List SinkRequest) :
    records (requests ++ requests') = records requests ++ records requests' :=
  List.filterMap_append

/-! ### Sessions -/

/-- The records between one request to close and the next. -/
def sessions (requests : List SinkRequest) : List (List Record) :=
  (requests.splitOnP isClose).map records

/-- The records before each request to close. -/
def ended (requests : List SinkRequest) : List (List Record) := (sessions requests).dropLast

/-- The records since the last request to close. -/
def current (requests : List SinkRequest) : List Record := (sessions requests).getLastD []

/-- The sessions in which there are records. -/
def groups (requests : List SinkRequest) : List (List Record) :=
  (sessions requests).filter fun rs => !rs.isEmpty

variable {requests more : List SinkRequest}

/-- What is not a request to close goes on with the last session. -/
theorem splitOnP_append_of_not_isClose (requests : List SinkRequest)
    (h : ∀ request ∈ more, request.isClose = false) :
    ∃ before last, requests.splitOnP isClose = before ++ [last] ∧
      (requests ++ more).splitOnP isClose = before ++ [last ++ more] := by
  induction requests with
  | nil => exact ⟨[], [], rfl, List.splitOnP_eq_singleton h⟩
  | cons request requests ih =>
    obtain ⟨before, last, hbefore, hafter⟩ := ih
    cases hclose : request.isClose with
    | true =>
      refine ⟨[] :: before, last, ?_, ?_⟩
      · rw [List.splitOnP_cons_eq_if_modifyHead, if_pos hclose, hbefore]
        rfl
      · rw [List.cons_append, List.splitOnP_cons_eq_if_modifyHead, if_pos hclose, hafter]
        rfl
    | false =>
      -- the request is put in front of the first session, which may be the last one too
      rw [List.cons_append, List.splitOnP_cons_eq_if_modifyHead,
        List.splitOnP_cons_eq_if_modifyHead, hclose, hbefore, hafter]
      cases before with
      | nil => exact ⟨[], request :: last, rfl, rfl⟩
      | cons first before => exact ⟨(request :: first) :: before, last, rfl, rfl⟩

/-- The sessions are those that have ended and the current one. -/
theorem sessions_eq (requests : List SinkRequest) :
    sessions requests = ended requests ++ [current requests] := by
  have hne : sessions requests ≠ [] := by simp [sessions]
  rw [ended, current, List.getLastD_eq_getLast?, List.getLast?_eq_some_getLast hne,
    Option.getD_some, List.dropLast_append_getLast]

/-- The groups are the sessions with records. -/
theorem groups_eq (requests : List SinkRequest) :
    groups requests = (ended requests ++ [current requests]).filter fun rs => !rs.isEmpty := by
  rw [groups, sessions_eq]

/-- The sessions tell the last one and those before it. -/
theorem ended_current_of_sessions {before : List (List Record)} {last : List Record}
    (h : sessions requests = before ++ [last]) :
    ended requests = before ∧ current requests = last := by
  rw [ended, current, h]
  simp

/-- As long as nothing is closed, the records go to the current session. -/
theorem sessions_append_of_not_isClose (requests : List SinkRequest)
    (h : ∀ request ∈ more, request.isClose = false) :
    sessions (requests ++ more) = ended requests ++ [current requests ++ records more] := by
  obtain ⟨before, last, hbefore, hafter⟩ := splitOnP_append_of_not_isClose requests h
  have hsessions : sessions requests = before.map records ++ [records last] := by
    rw [sessions, hbefore, List.map_append]
    rfl
  obtain ⟨hended, hcurrent⟩ := ended_current_of_sessions hsessions
  rw [sessions, hafter, List.map_append, hended, hcurrent, ← records_append]
  rfl

theorem ended_append_of_not_isClose (requests : List SinkRequest)
    (h : ∀ request ∈ more, request.isClose = false) : ended (requests ++ more) = ended requests :=
  (ended_current_of_sessions (sessions_append_of_not_isClose requests h)).1

theorem current_append_of_not_isClose (requests : List SinkRequest)
    (h : ∀ request ∈ more, request.isClose = false) :
    current (requests ++ more) = current requests ++ records more :=
  (ended_current_of_sessions (sessions_append_of_not_isClose requests h)).2

/-- Closing ends the current session and begins one without records. -/
theorem sessions_append_close (requests : List SinkRequest) :
    sessions (requests ++ [close]) = ended requests ++ [current requests] ++ [[]] := by
  rw [← sessions_eq, sessions, List.splitOnP_append_cons _ _ rfl, List.map_append]
  rfl

theorem ended_append_close (requests : List SinkRequest) :
    ended (requests ++ [close]) = ended requests ++ [current requests] :=
  (ended_current_of_sessions (sessions_append_close requests)).1

theorem current_append_close (requests : List SinkRequest) :
    current (requests ++ [close]) = [] :=
  (ended_current_of_sessions (sessions_append_close requests)).2

theorem ended_append_send (requests : List SinkRequest) (r : Record) :
    ended (requests ++ [send r]) = ended requests :=
  ended_append_of_not_isClose requests (by simp [isClose])

/-- A record that is sent goes to the current session. -/
theorem current_append_send (requests : List SinkRequest) (r : Record) :
    current (requests ++ [send r]) = current requests ++ [r] :=
  current_append_of_not_isClose requests (by simp [isClose])

theorem ended_append_flush (requests : List SinkRequest) :
    ended (requests ++ [flush]) = ended requests :=
  ended_append_of_not_isClose requests (by simp [isClose])

theorem current_append_flush (requests : List SinkRequest) :
    current (requests ++ [flush]) = current requests :=
  (current_append_of_not_isClose requests (by simp [isClose])).trans (List.append_nil _)

/-- The request is to take the first record of a session, after other requests. -/
def opens (requests : List SinkRequest) : SinkRequest → Bool
  | send _ => (current requests).isEmpty
  | flush => false
  | close => false

/-- Only a record can make an attempt to connect. -/
theorem opens_of_record?_eq_none {request : SinkRequest} (h : request.record? = none) :
    opens requests request = false := by
  cases request with
  | send r => cases h
  | flush => rfl
  | close => rfl

theorem current_append_of_record?_eq_none {request : SinkRequest} (h : request.record? = none)
    (hcurrent : current requests = []) : current (requests ++ [request]) = [] := by
  cases request with
  | send r => cases h
  | flush => rw [current_append_flush, hcurrent]
  | close => exact current_append_close requests

/-- A session counts as a group with its first record. -/
theorem length_groups_append (requests : List SinkRequest) (request : SinkRequest) :
    (groups (requests ++ [request])).length =
      (groups requests).length + (opens requests request).toNat := by
  rw [groups_eq, groups_eq]
  cases request with
  | send r =>
    rw [ended_append_send, current_append_send, opens]
    cases current requests <;> simp
  | flush =>
    rw [ended_append_flush, current_append_flush]
    rfl
  | close =>
    rw [ended_append_close, current_append_close, List.filter_append]
    simp [opens]

/-- The requests that succeeded. -/
def taken (requests : List SinkRequest) (outcomes : List Outcome) : List SinkRequest :=
  ((requests.zip outcomes).filter fun p => p.2.isOk).map Prod.fst

/-- Where all succeeds, all was taken. -/
theorem taken_of_forall_isOk {outcomes : List Outcome} (h : outcomes.length = requests.length)
    (hok : ∀ outcome ∈ outcomes, outcome = .ok ()) : taken requests outcomes = requests := by
  have hall : ∀ p ∈ requests.zip outcomes, p.2.isOk = true := by
    intro p hp
    rw [hok p.2 (List.of_mem_zip hp).2]
    rfl
  rw [taken, List.filter_eq_self.mpr hall, List.map_fst_zip (Nat.le_of_eq h.symm)]

/-- A request is taken if it succeeds. -/
theorem taken_append {outcomes : List Outcome} (h : outcomes.length = requests.length)
    (request : SinkRequest) (outcome : Outcome) :
    taken (requests ++ [request]) (outcomes ++ [outcome]) =
      taken requests outcomes ++ if outcome.isOk then [request] else [] := by
  rw [taken, List.zip_append h.symm, List.filter_append, List.map_append]
  cases hok : outcome.isOk <;> simp [taken, hok]

end SinkRequest

namespace Sink

section

variable {m : Type → Type} [Monad m]

/-- Asks the sink. -/
def perform (sink : Sink m) : SinkRequest → m Outcome
  | .send r => sink.send r
  | .flush => sink.flush
  | .close => sink.close

/-- Asks the sink, one request after the other. -/
def performAll (sink : Sink m) : List SinkRequest → m (List Outcome)
  | [] => return []
  | request :: requests => do
    let outcome ← sink.perform request
    let outcomes ← sink.performAll requests
    return outcome :: outcomes

end

variable {S : Type} (sink : Sink (StateM S))

theorem performAll_nil (w : S) : sink.performAll [] w = ([], w) := rfl

theorem performAll_cons (request : SinkRequest) (requests : List SinkRequest) (w : S) :
    sink.performAll (request :: requests) w =
      ((sink.perform request w).1 :: (sink.performAll requests (sink.perform request w).2).1,
        (sink.performAll requests (sink.perform request w).2).2) :=
  rfl

variable {sink} in
/-- The first request is made, and then the others. -/
theorem performAll_cons_of {request : SinkRequest} {w w' : S} {outcome : Outcome}
    (h : sink.perform request w = (outcome, w')) (requests : List SinkRequest) :
    sink.performAll (request :: requests) w =
      (outcome :: (sink.performAll requests w').1, (sink.performAll requests w').2) := by
  rw [performAll_cons, h]

theorem performAll_append (requests requests' : List SinkRequest) (w : S) :
    sink.performAll (requests ++ requests') w =
      ((sink.performAll requests w).1 ++
          (sink.performAll requests' (sink.performAll requests w).2).1,
        (sink.performAll requests' (sink.performAll requests w).2).2) := by
  induction requests generalizing w with
  | nil => rfl
  | cons request requests ih =>
    rw [List.cons_append, performAll_cons, performAll_cons, ih]
    rfl

variable {sink} in
/-- One more request is made. -/
theorem performAll_append_of {requests : List SinkRequest} {request : SinkRequest} {w w' w'' : S}
    {outcomes : List Outcome} {outcome : Outcome} (h : sink.performAll requests w = (outcomes, w'))
    (hlast : sink.perform request w' = (outcome, w'')) :
    sink.performAll (requests ++ [request]) w = (outcomes ++ [outcome], w'') := by
  rw [performAll_append, h, performAll_cons_of hlast, performAll_nil]

theorem length_performAll (requests : List SinkRequest) (w : S) :
    (sink.performAll requests w).1.length = requests.length := by
  induction requests generalizing w with
  | nil => rfl
  | cons request requests ih => rw [performAll_cons, List.length_cons, List.length_cons, ih]

end Sink

/-! ## A sink with a state of its own -/

section

variable {P S α : Type}

/-- An action whose own state and the world are one. -/
def joined (action : StateT P (StateM S) α) : StateM (P × S) α := fun (p, w) =>
  let ((a, p), w) := action p w
  (a, p, w)

theorem joined_of {action : StateT P (StateM S) α} {p p' : P} {w w' : S} {a : α}
    (h : action p w = ((a, p'), w')) : joined action (p, w) = (a, p', w') := by
  rw [joined, h]

/-- A sink whose own state and the world are one. -/
def Sink.joined (sink : Sink (StateT P (StateM S))) : Sink (StateM (P × S)) where
  send r := BuildMetrics.joined (sink.send r)
  flush := BuildMetrics.joined sink.flush
  close := BuildMetrics.joined sink.close

end

/-! ## Sending records -/

/-- The requests to take the records that are not too long. -/
def sendRequests (rs : List Record) : List SinkRequest := SinkRequest.sends (sendable rs)

section

variable {S : Type} (sink : Sink (StateM S))

theorem emit_eq_performAll (rs : List Record) (w : S) :
    emit sink rs w =
      (.ofSends rs ((sendable rs).zip (sink.performAll (sendRequests rs) w).1),
        (sink.performAll (sendRequests rs) w).2) := by
  induction rs generalizing w with
  | nil => rfl
  | cons r rs ih =>
    cases hr : r.isTooLong with
    | true =>
      rw [emit_cons_of_isTooLong hr, ih, sendRequests, sendRequests, sendable_cons_of_isTooLong hr]
      exact Prod.ext (Emission.ofSends_cons_of_isTooLong hr).symm rfl
    | false =>
      rw [emit_cons_of_send hr, ih, sendRequests, sendRequests, sendable_cons hr]
      exact Prod.ext (Emission.ofSends_cons hr _).symm rfl

end

end BuildMetrics
