import BuildMetrics.Report.Emission
import Mathlib.Data.List.Basic

/-!
# The calls on a sink

To say what is asked of a sink, its calls are noted in a log that stands beside the state of the
world. The sink may be any sink: what it answers, and what it does to the world, is up to it.
Nothing that is done with the sink sees the log, so with it all goes on as without it, and the log
tells the rest.

`emit_logging`: sending records calls `send` once for each record whose name is short enough, in
order, and counts what came of it.
-/

namespace BuildMetrics

open Run

/-- What came of a call. -/
abbrev Outcome : Type := Except SinkError Unit

/-- The call succeeded. -/
def Outcome.isOk : Outcome → Bool
  | .ok () => true
  | .error _ => false

/-- What was asked of a sink, and what came of it. -/
inductive SinkCall where
  /-- it was to take a record -/
  | send (r : Record) (outcome : Outcome)
  /-- it was to deliver what it took -/
  | flush (outcome : Outcome)
  /-- it was to let go of everything -/
  | close (outcome : Outcome)

namespace SinkCall

/-- The call is to let go of everything. -/
def isClose : SinkCall → Bool
  | send _ _ => false
  | flush _ => false
  | close _ => true

end SinkCall

variable {σ L : Type}

/-- Notes a call after others. -/
abbrev Note (L : Type) : Type := SinkCall → L → L

/-- The log when some calls have been noted. -/
def Note.all (note : Note L) (calls : List SinkCall) (log : L) : L :=
  calls.foldl (fun log call => note call log) log

/-- The log is a list of calls. -/
def Note.push : Note (List SinkCall) := fun call log => log ++ [call]

/-- A sink whose calls are noted in a log beside the world. -/
def Sink.logging (note : Note L) (sink : Sink (StateM σ)) : Sink (StateM (L × σ)) where
  send r := fun (log, w) =>
    let (outcome, w) := sink.send r w
    (outcome, note (.send r outcome) log, w)
  flush := fun (log, w) =>
    let (outcome, w) := sink.flush w
    (outcome, note (.flush outcome) log, w)
  close := fun (log, w) =>
    let (outcome, w) := sink.close w
    (outcome, note (.close outcome) log, w)

variable {note : Note L} {sink : Sink (StateM σ)} {calls : List SinkCall}

/-- Calls are noted one after the other. -/
theorem Note.all_append (calls calls' : List SinkCall) (log : L) :
    note.all (calls ++ calls') log = note.all calls' (note.all calls log) :=
  List.foldl_append

theorem Note.all_push (calls log : List SinkCall) : push.all calls log = log ++ calls := by
  induction calls generalizing log with
  | nil => exact (List.append_nil log).symm
  | cons call calls ih =>
    calc push.all (call :: calls) log = push.all calls (log ++ [call]) := rfl
      _ = log ++ call :: calls := by rw [ih, List.append_assoc, List.singleton_append]

/-! ## Sending records -/

/-- Names of 255 characters and more are too long. -/
theorem Record.isTooLong_iff {r : Record} : r.isTooLong = true ↔ 255 ≤ r.name.length :=
  decide_eq_true_iff

/-- Names of fewer than 255 characters are short enough. -/
theorem Record.isTooLong_eq_false_iff {r : Record} : r.isTooLong = false ↔ r.name.length < 255 := by
  rw [← Bool.not_eq_true, isTooLong_iff, Nat.not_le]

/-- The records of a list whose names are short enough to be sent. -/
def sendable (rs : List Record) : List Record := rs.filter fun r => r.name.length < 255

theorem sendable_cons_of_isTooLong {r : Record} (h : r.isTooLong = true) (rs : List Record) :
    sendable (r :: rs) = sendable rs := by
  have hlong := Record.isTooLong_iff.mp h
  exact List.filter_cons_of_neg (by simpa using hlong)

theorem sendable_cons {r : Record} (h : r.isTooLong = false) (rs : List Record) :
    sendable (r :: rs) = r :: sendable rs := by
  have hshort := Record.isTooLong_eq_false_iff.mp h
  exact List.filter_cons_of_pos (by simpa using hshort)

/-- The calls for records with what came of them. -/
def sendCalls (sends : List (Record × Outcome)) : List SinkCall :=
  sends.map fun (r, outcome) => .send r outcome

/-- Sending records closes nothing. -/
theorem isClose_of_mem_sendCalls {sends : List (Record × Outcome)} {call : SinkCall}
    (h : call ∈ sendCalls sends) : call.isClose = false := by
  obtain ⟨⟨r, outcome⟩, -, rfl⟩ := List.mem_map.mp h
  rfl

namespace Emission

/-- What became of a record that was sent. -/
def ofOutcome : Outcome → Emission
  | .ok () => ofSent
  | .error _ => ofFailed

/-- What became of records when those that are not too long were sent. -/
def ofSends (rs : List Record) (sends : List (Record × Outcome)) : Emission where
  sent := sends.countP fun send => send.2.isOk
  dropped := rs.countP fun r => 255 ≤ r.name.length
  failed := sends.countP fun send => !send.2.isOk

variable {r : Record} {rs : List Record} {sends : List (Record × Outcome)}

theorem ofSends_cons_of_isTooLong (h : r.isTooLong = true) :
    ofSends (r :: rs) sends = ofDropped.add (ofSends rs sends) := by
  have hlong := Record.isTooLong_iff.mp h
  simp [ofSends, ofDropped, add, hlong, Nat.add_comm]

theorem ofSends_cons (h : r.isTooLong = false) (outcome : Outcome) :
    ofSends (r :: rs) ((r, outcome) :: sends) = (ofOutcome outcome).add (ofSends rs sends) := by
  have hshort : ¬ 255 ≤ r.name.length := Nat.not_le.mpr (Record.isTooLong_eq_false_iff.mp h)
  cases outcome with
  | ok u => simp [ofSends, ofOutcome, ofSent, add, hshort, Outcome.isOk, Nat.add_comm]
  | error e => simp [ofSends, ofOutcome, ofFailed, add, hshort, Outcome.isOk, Nat.add_comm]

/-- Each record was sent, dropped or refused. -/
theorem attempted_ofSends (h : sends.map Prod.fst = sendable rs) :
    (ofSends rs sends).attempted = rs.length := by
  have hsends : sends.length = (ofSends rs sends).sent + (ofSends rs sends).failed := by
    simpa [ofSends] using sends.length_eq_countP_add_countP fun send => send.2.isOk
  have hrecords : rs.length = (ofSends rs sends).dropped + sends.length := by
    rw [← List.length_map Prod.fst, h, sendable, ← List.countP_eq_length_filter]
    simpa [ofSends] using rs.length_eq_countP_add_countP fun r => decide (255 ≤ r.name.length)
  rw [attempted]
  omega

end Emission

section

variable {S : Type} {sink : Sink (StateM S)} {r : Record} {rs : List Record}

/-- A record that is too long is dropped, and the sink is not called. -/
theorem emit_cons_of_isTooLong (h : r.isTooLong = true) (s : S) :
    emit sink (r :: rs) s = (Emission.ofDropped.add (emit sink rs s).1, (emit sink rs s).2) := by
  have hone : emitOne sink r s = (.ofDropped, s) := by
    rw [emitOne, if_pos h]
    rfl
  calc emit sink (r :: rs) s
      = ((emitOne sink r s).1.add (emit sink rs (emitOne sink r s).2).1,
          (emit sink rs (emitOne sink r s).2).2) := rfl
    _ = (Emission.ofDropped.add (emit sink rs s).1, (emit sink rs s).2) := by rw [hone]

/-- Any other record is sent, and what becomes of it is counted. -/
theorem emit_cons_of_send (h : r.isTooLong = false) (s : S) :
    emit sink (r :: rs) s =
      ((Emission.ofOutcome (sink.send r s).1).add (emit sink rs (sink.send r s).2).1,
        (emit sink rs (sink.send r s).2).2) := by
  have hone : emitOne sink r s = (.ofOutcome (sink.send r s).1, (sink.send r s).2) := by
    rw [emitOne, if_neg (by simp [h])]
    simp only [bind, StateT.bind]
    rcases sink.send r s with ⟨outcome, s'⟩
    cases outcome with
    | ok u => rfl
    | error e => rfl
  calc emit sink (r :: rs) s
      = ((emitOne sink r s).1.add (emit sink rs (emitOne sink r s).2).1,
          (emit sink rs (emitOne sink r s).2).2) := rfl
    _ = _ := by rw [hone]

end

/-- **Each record that is not too long is sent once, in order.** -/
theorem emit_logging (note : Note L) (sink : Sink (StateM σ)) (rs : List Record) (log : L) (w : σ) :
    ∃ sends : List (Record × Outcome), sends.map Prod.fst = sendable rs ∧
      (emit sink rs w).1 = .ofSends rs sends ∧
      emit (sink.logging note) rs (log, w) =
        ((emit sink rs w).1, note.all (sendCalls sends) log, (emit sink rs w).2) := by
  -- each send leaves another log and another world to the sends after it
  induction rs generalizing log w with
  | nil => exact ⟨[], rfl, rfl, rfl⟩
  | cons r rs ih =>
    cases hr : r.isTooLong with
    | true =>
      obtain ⟨sends, hsends, hcounts, hlog⟩ := ih log w
      refine ⟨sends, ?_, ?_, ?_⟩
      · rw [hsends, sendable_cons_of_isTooLong hr]
      · rw [emit_cons_of_isTooLong hr, hcounts, Emission.ofSends_cons_of_isTooLong hr]
      · rw [emit_cons_of_isTooLong hr, emit_cons_of_isTooLong hr, hlog]
    | false =>
      let outcome := (sink.send r w).1
      obtain ⟨sends, hsends, hcounts, hlog⟩ := ih (note (.send r outcome) log) (sink.send r w).2
      refine ⟨(r, outcome) :: sends, ?_, ?_, ?_⟩
      · rw [List.map_cons, hsends, sendable_cons hr]
      · rw [emit_cons_of_send hr, hcounts, Emission.ofSends_cons hr]
      · have hcall : (sink.logging note).send r (log, w) =
            (outcome, note (.send r outcome) log, (sink.send r w).2) := rfl
        rw [emit_cons_of_send hr, emit_cons_of_send hr, hcall, hlog]
        rfl

end BuildMetrics
