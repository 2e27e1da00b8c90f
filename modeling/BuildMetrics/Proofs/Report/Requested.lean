import BuildMetrics.Proofs.Report.Delivery
import BuildMetrics.Proofs.Sink.Requests

/-!
# A report of a run as requests

A report of a run makes the requests for the records of all passes and then the one to deliver
them, and it counts the answers. How the records are parted into passes makes no difference to
the sink.

* `reportRun_joined`: a sink with a state of its own can be taken as one whose state is the world;
* `reportRun_performAll`: what a report does, and what it tells.
-/

namespace BuildMetrics

open Run (Event)

/-! ## Sinks with a state of their own -/

section

variable {P S α β : Type} (sink : Sink (StateT P (StateM S)))

/-- Two actions can be joined with the world one by one. -/
theorem joined_bind (action : StateT P (StateM S) α) (next : α → StateT P (StateM S) β) :
    joined (action >>= next) = joined action >>= fun a => joined (next a) :=
  rfl

theorem emitOne_joined (r : Record) : emitOne sink.joined r = joined (emitOne sink r) := by
  rw [emitOne, emitOne]
  split
  · rfl
  · rw [joined_bind]
    congr 1
    funext outcome
    cases outcome <;> rfl

theorem emit_joined (rs : List Record) : emit sink.joined rs = joined (emit sink rs) := by
  induction rs with
  | nil => rfl
  | cons r rs ih =>
    rw [emit, emit, emitOne_joined, ih]
    rfl

theorem emitPasses_joined (ps : List PassRecords) :
    emitPasses sink.joined ps = joined (emitPasses sink ps) := by
  induction ps with
  | nil => rfl
  | cons p ps ih =>
    rw [emitPasses, emitPasses, emitPass, emitPass, emit_joined, ih]
    rfl

/-- A run is reported to a joined sink as to the sink itself. -/
theorem reportRun_joined (config : Config) (now : Millis) (event : Event)
    (property : Option JobProperty) :
    reportRun sink.joined config now event property =
      joined (reportRun sink config now event property) := by
  rw [reportRun, reportRun, emitPasses_joined]
  rfl

end

/-! ## Passes one after the other -/

namespace Emission

variable {rs rs' : List Record} {sends sends' : List (Record × Outcome)}

/-- What became of two lists of records is counted list by list. -/
theorem ofSends_append :
    ofSends (rs ++ rs') (sends ++ sends') = (ofSends rs sends).add (ofSends rs' sends') := by
  simp [ofSends, add]

/-- None has failed if and only if all were answered with success. -/
theorem failed_ofSends_eq_zero_iff {outcomes : List Outcome}
    (h : (sendable rs).length = outcomes.length) :
    (ofSends rs ((sendable rs).zip outcomes)).failed = 0 ↔
      outcomes.all Outcome.isOk = true := by
  have hsnd : ((sendable rs).zip outcomes).map Prod.snd = outcomes :=
    List.map_snd_zip (Nat.le_of_eq h.symm)
  have hcount : (ofSends rs ((sendable rs).zip outcomes)).failed =
      outcomes.countP fun outcome => !outcome.isOk := by
    rw [← congrArg (List.countP fun outcome => !outcome.isOk) hsnd, List.countP_map]
    rfl
  rw [hcount, List.countP_eq_zero, List.all_eq_true]
  simp

theorem add_assoc (e f g : Emission) : (e.add f).add g = e.add (f.add g) := by
  simp [add, Nat.add_assoc]

theorem foldl_add (e : Emission) (es : List Emission) :
    es.foldl add e = e.add (es.foldl add .none) := by
  induction es generalizing e with
  | nil => rfl
  | cons f es ih =>
    rw [List.foldl_cons, List.foldl_cons, ih, ih (Emission.none.add f), add_assoc, add_assoc]
    simp [add, none]

end Emission

section

variable {S : Type} (sink : Sink (StateM S))

theorem sendRequests_append (rs rs' : List Record) :
    sendRequests (rs ++ rs') = sendRequests rs ++ sendRequests rs' := by
  rw [sendRequests, sendable, List.filter_append, SinkRequest.sends, List.map_append]
  rfl

/-- The passes of a run are one list of requests to the sink. -/
theorem emitPasses_performAll (ps : List PassRecords) (w : S) :
    let rs := ps.flatMap PassRecords.records
    ((emitPasses sink ps w).1.map PassSummary.emission).foldl Emission.add .none =
        .ofSends rs ((sendable rs).zip (sink.performAll (sendRequests rs) w).1) ∧
      (emitPasses sink ps w).2 = (sink.performAll (sendRequests rs) w).2 := by
  induction ps generalizing w with
  | nil => exact ⟨rfl, rfl⟩
  | cons p ps ih =>
    obtain ⟨hcounts, hworld⟩ := ih (sink.performAll (sendRequests p.records) w).2
    have hlength : (sendable p.records).length =
        (sink.performAll (sendRequests p.records) w).1.length := by
      rw [Sink.length_performAll, sendRequests, SinkRequest.sends, List.length_map]
    have hsendable : sendable (p.records ++ ps.flatMap PassRecords.records) =
        sendable p.records ++ sendable (ps.flatMap PassRecords.records) := List.filter_append _ _
    simp only [emitPasses_cons, emit_eq_performAll, List.flatMap_cons, sendRequests_append,
      Sink.performAll_append]
    -- there are as many answers for a pass as it has records, so they are counted pass by pass
    refine ⟨?_, hworld⟩
    rw [hsendable, List.zip_append hlength, Emission.ofSends_append, List.map_cons, List.foldl_cons,
      Emission.foldl_add, hcounts]
    simp [Emission.add, Emission.none]

/-- **A report makes the requests for all records, then the one to deliver them.** -/
theorem reportRun_performAll (config : Config) (now : Millis) (event : Event)
    (property : Option JobProperty) (w : S) :
    let rs := (runRecords config now event property).all
    let sent := sink.performAll (sendRequests rs) w
    (reportRun sink config now event property w).1.totals =
        .ofSends rs ((sendable rs).zip sent.1) ∧
      (reportRun sink config now event property w).1.flushError =
        SinkError.message? (sink.flush sent.2).1 ∧
      (reportRun sink config now event property w).2 = (sink.flush sent.2).2 := by
  obtain ⟨hcounts, hworld⟩ :=
    emitPasses_performAll sink (runRecords config now event property).passes w
  rw [reportRun_eq]
  dsimp only
  rw [hworld]
  exact ⟨hcounts, rfl, rfl⟩

end

end BuildMetrics
