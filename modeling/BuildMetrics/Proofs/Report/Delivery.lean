import BuildMetrics.Proofs.Sink.Calls
import BuildMetrics.Sink.Memory

/-!
# What becomes of the records of a run

A report of a run sends the records of each pass and flushes the sink once, at the end, whatever the
sink answers; its summaries count the answers.

* `reportRun_logging`: the calls on the sink, and the report, are those of one delivery for each
  pass;
* `reportRun_memory`: a sink in memory then holds what it held before and the records that it takes;
* `reportRun_accounts`: the account as a whole.
-/

namespace BuildMetrics

open Run

/-- A pass and what came of sending its records. -/
structure Delivery where
  /-- the pass -/
  pass : PassRecords
  /-- the records that were sent, with what came of it -/
  sends : List (Record × Outcome)

namespace Delivery

/-- Each record of the pass that is not too long was sent once, in order. -/
def Complete (d : Delivery) : Prop := d.sends.map Prod.fst = sendable d.pass.records

/-- What became of the records. -/
def emission (d : Delivery) : Emission := .ofSends d.pass.records d.sends

/-- The summary of the pass. -/
def summary (d : Delivery) : PassSummary :=
  ⟨d.pass.pass, d.emission, d.pass.error.map Trace.TraceError.message⟩

/-- The calls for the records of some passes. -/
def calls (ds : List Delivery) : List SinkCall := sendCalls (ds.flatMap sends)

/-- Each record of the pass was counted once. -/
theorem attempted_emission {d : Delivery} (h : d.Complete) :
    d.emission.attempted = d.pass.records.length :=
  Emission.attempted_ofSends h

theorem calls_cons (d : Delivery) (ds : List Delivery) :
    calls (d :: ds) = sendCalls d.sends ++ calls ds := by
  rw [calls, List.flatMap_cons, sendCalls, List.map_append]
  rfl

end Delivery

variable {σ L : Type}

/-! ## Calls -/

/-- Passes are sent one after the other. -/
theorem emitPasses_cons {S : Type} (sink : Sink (StateM S)) (p : PassRecords)
    (ps : List PassRecords) (s : S) :
    emitPasses sink (p :: ps) s =
      (⟨p.pass, (emit sink p.records s).1, p.error.map Trace.TraceError.message⟩ ::
          (emitPasses sink ps (emit sink p.records s).2).1,
        (emitPasses sink ps (emit sink p.records s).2).2) :=
  rfl

/-- A log beside the sink holds what was sent for each pass and makes no difference to the
summaries. -/
theorem emitPasses_logging (note : Note L) (sink : Sink (StateM σ)) (ps : List PassRecords)
    (log : L) (w : σ) :
    ∃ ds : List Delivery, ds.map Delivery.pass = ps ∧ (∀ d ∈ ds, d.Complete) ∧
      (emitPasses sink ps w).1 = ds.map Delivery.summary ∧
      emitPasses (sink.logging note) ps (log, w) =
        ((emitPasses sink ps w).1, note.all (Delivery.calls ds) log, (emitPasses sink ps w).2) := by
  induction ps generalizing log w with
  | nil => exact ⟨[], rfl, by simp, rfl, rfl⟩
  | cons p ps ih =>
    obtain ⟨sends, hsends, hcounts, hlog⟩ := emit_logging note sink p.records log w
    obtain ⟨ds, hpasses, hcomplete, hsummaries, hlogs⟩ :=
      ih (note.all (sendCalls sends) log) (emit sink p.records w).2
    refine ⟨⟨p, sends⟩ :: ds, ?_, ?_, ?_, ?_⟩
    · rw [List.map_cons, hpasses]
    · exact List.forall_mem_cons.mpr ⟨hsends, hcomplete⟩
    · rw [emitPasses_cons, hsummaries, hcounts]
      rfl
    · rw [emitPasses_cons, emitPasses_cons, hlog, hlogs, Delivery.calls_cons, Note.all_append]

/-- A report sends the records of all passes and then flushes the sink. -/
theorem reportRun_eq {S : Type} (sink : Sink (StateM S)) (config : Config) (now : Millis)
    (event : Event) (property : Option JobProperty) (s : S) :
    let built := runRecords config now event property
    let emitted := emitPasses sink built.passes s
    reportRun sink config now event property s =
      (⟨built.job, built.buildId, emitted.1, SinkError.message? (sink.flush emitted.2).1⟩,
        (sink.flush emitted.2).2) :=
  rfl

/-- There is no message if and only if all went well. -/
theorem message?_eq_none {outcome : Outcome} :
    SinkError.message? outcome = none ↔ outcome = .ok () := by
  cases outcome with
  | ok u => exact ⟨fun _ => rfl, fun _ => rfl⟩
  | error e => exact ⟨fun h => (by cases h), fun h => (by cases h)⟩

/-- **A report of a run is one round of calls.** -/
theorem reportRun_logging (note : Note L) (sink : Sink (StateM σ)) (config : Config) (now : Millis)
    (event : Event) (property : Option JobProperty) (log : L) (w : σ) :
    ∃ (ds : List Delivery) (flushed : Outcome),
      ds.map Delivery.pass = (runRecords config now event property).passes ∧
      (∀ d ∈ ds, d.Complete) ∧
      (reportRun sink config now event property w).1.passes = ds.map Delivery.summary ∧
      ((reportRun sink config now event property w).1.flushError = none ↔ flushed = .ok ()) ∧
      reportRun (sink.logging note) config now event property (log, w) =
        ((reportRun sink config now event property w).1,
          note.all (Delivery.calls ds ++ [.flush flushed]) log,
          (reportRun sink config now event property w).2) := by
  let passes := (runRecords config now event property).passes
  obtain ⟨ds, hpasses, hcomplete, hsummaries, hlog⟩ := emitPasses_logging note sink passes log w
  let flushed := (sink.flush (emitPasses sink passes w).2).1
  refine ⟨ds, flushed, hpasses, hcomplete, hsummaries, message?_eq_none, ?_⟩
  rw [reportRun_eq, reportRun_eq, hlog, Note.all_append]
  rfl

/-- A report of a timed step calls `send` at most once. -/
theorem reportStep_logging (note : Note L) (sink : Sink (StateM σ)) (config : Config) (now : Millis)
    (event : StepEvent) (log : L) (w : σ) :
    ∃ sends : List (Record × Outcome),
      sends.map Prod.fst = sendable [stepRecord config now event] ∧
      reportStep (sink.logging note) config now event (log, w) =
        ((reportStep sink config now event w).1, note.all (sendCalls sends) log,
          (reportStep sink config now event w).2) := by
  obtain ⟨sends, hsends, -, hlog⟩ := emit_logging note sink [stepRecord config now event] log w
  exact ⟨sends, hsends, hlog⟩

/-! ## Totals -/

/-- A count of all summaries of a report together. -/
def RunReport.total (count : Emission → Nat) (report : RunReport) : Nat :=
  report.passes.foldl (fun total s => total + count s.emission) 0

/-- The totals are the sums over all passes. -/
theorem RunReport.totals_eq (report : RunReport) :
    report.totals = ⟨report.total Emission.sent, report.total Emission.dropped,
      report.total Emission.failed⟩ := by
  have hfold (passes : List PassSummary) (e : Emission) :
      (passes.map PassSummary.emission).foldl Emission.add e =
        ⟨passes.foldl (fun total s => total + s.emission.sent) e.sent,
          passes.foldl (fun total s => total + s.emission.dropped) e.dropped,
          passes.foldl (fun total s => total + s.emission.failed) e.failed⟩ := by
    induction passes generalizing e with
    | nil => rfl
    | cons s passes ih => exact ih _
  exact hfold report.passes .none

/-! ## The sink in memory -/

namespace MemorySink

/-- The sink takes a record that it is sent. -/
def takes (s : MemorySink) (r : Record) : Bool := !r.isTooLong && !s.refuses r

/-- What becomes of records that are sent to the sink. -/
def emission (s : MemorySink) (rs : List Record) : Emission where
  sent := rs.countP s.takes
  dropped := rs.countP Record.isTooLong
  failed := rs.countP fun r => !r.isTooLong && s.refuses r

/-- The sink when it holds more records. -/
def keep (s : MemorySink) (rs : List Record) : MemorySink := { s with records := s.records ++ rs }

variable {s : MemorySink} {r : Record} {rs : List Record}

theorem takes_keep (s : MemorySink) (rs : List Record) : (s.keep rs).takes = s.takes := rfl

theorem emission_keep (s : MemorySink) (rs : List Record) : (s.keep rs).emission = s.emission := rfl

theorem keep_append (s : MemorySink) (rs rs' : List Record) :
    (s.keep rs).keep rs' = s.keep (rs ++ rs') := by
  rw [keep, keep, keep, List.append_assoc]

theorem send_of_refuses (h : s.refuses r = true) : send r s = (.error (.rejected r.name), s) := by
  rw [send, if_pos h]

theorem send_of_not_refuses (h : s.refuses r = false) : send r s = (.ok (), s.keep [r]) := by
  rw [send, if_neg (by simp [h])]
  rfl

/-- The sink takes what is not too long and is not refused. -/
theorem takes_iff : s.takes r = true ↔ r.name.length < 255 ∧ (send r s).1 = .ok () := by
  rw [takes, Bool.and_eq_true, Bool.not_eq_true', Bool.not_eq_true',
    Record.isTooLong_eq_false_iff]
  cases h : s.refuses r with
  | true => simp [send_of_refuses h]
  | false => simp [send_of_not_refuses h]

/-- Of records that are sent, a sink in memory keeps those that it takes, in order. -/
theorem emit_sink (s : MemorySink) (rs : List Record) :
    emit sink rs s = (s.emission rs, s.keep (rs.filter s.takes)) := by
  induction rs generalizing s with
  | nil =>
    have hkeep : s.keep [] = s := by rw [keep, List.append_nil]
    rw [List.filter_nil, hkeep]
    rfl
  | cons r rs ih =>
    cases hr : r.isTooLong with
    | true =>
      have hskip : s.takes r = false := by simp [takes, hr]
      rw [emit_cons_of_isTooLong hr, ih, List.filter_cons_of_neg (by simp [hskip])]
      simp [emission, Emission.ofDropped, Emission.add, hr, hskip, Nat.add_comm]
    | false =>
      cases hrefuses : s.refuses r with
      | true =>
        have hsend : sink.send r s = (.error (.rejected r.name), s) := send_of_refuses hrefuses
        have hskip : s.takes r = false := by simp [takes, hrefuses]
        rw [emit_cons_of_send hr, hsend, ih, List.filter_cons_of_neg (by simp [hskip])]
        simp [emission, Emission.ofOutcome, Emission.ofFailed, Emission.add, hr, hskip, hrefuses,
          Nat.add_comm]
      | false =>
        have hsend : sink.send r s = (.ok (), s.keep [r]) := send_of_not_refuses hrefuses
        have htakes : s.takes r = true := by simp [takes, hr, hrefuses]
        rw [emit_cons_of_send hr, hsend, ih, takes_keep, keep_append, emission_keep,
          List.filter_cons_of_pos htakes]
        simp [emission, Emission.ofOutcome, Emission.ofSent, Emission.add, hr, htakes, hrefuses,
          Nat.add_comm]

/-- The summary of a pass whose records are sent to the sink. -/
def summary (s : MemorySink) (p : PassRecords) : PassSummary :=
  ⟨p.pass, s.emission p.records, p.error.map Trace.TraceError.message⟩

/-- Of the records of all passes, a sink in memory keeps those that it takes, in order. -/
theorem emitPasses_sink (s : MemorySink) (ps : List PassRecords) :
    emitPasses sink ps s =
      (ps.map s.summary, s.keep ((ps.flatMap PassRecords.records).filter s.takes)) := by
  induction ps generalizing s with
  | nil =>
    have hkeep : s.keep [] = s := by rw [keep, List.append_nil]
    rw [List.flatMap_nil, List.filter_nil, hkeep]
    rfl
  | cons p ps ih =>
    have hsummary (rs : List Record) : (s.keep rs).summary = s.summary := rfl
    rw [emitPasses_cons, emit_sink, ih, hsummary, takes_keep, keep_append, List.flatMap_cons,
      List.filter_append]
    rfl

end MemorySink

section

variable (config : Config) (now : Millis) (event : Event) (property : Option JobProperty)

/-- A sink in memory then holds the records that it takes, and the summaries count them. -/
theorem reportRun_memory (s : MemorySink) :
    let built := runRecords config now event property
    (reportRun MemorySink.sink config now event property s).1.passes = built.passes.map s.summary ∧
      (reportRun MemorySink.sink config now event property s).2 =
        s.keep (built.all.filter s.takes) := by
  have hpasses := MemorySink.emitPasses_sink s (runRecords config now event property).passes
  rw [reportRun_eq, hpasses]
  exact ⟨rfl, rfl⟩

/-! ## The account -/

/-- The trace gives rise to no other pass than that over the scopes. -/
theorem pass_of_mem_pipelinePass {ctx : RunContext} {trace : Option (List Trace.Node)}
    {p : PassRecords} (h : p ∈ pipelinePass ctx trace) : p.pass = .pipeline := by
  cases trace with
  | none => cases h
  | some nodes =>
    obtain rfl := List.mem_singleton.mp h
    rfl

/-- The passes come in their order. -/
theorem runRecords_passes_sublist :
    ((runRecords config now event property).passes.map PassRecords.pass).Sublist
      [.job, .pipeline, .tests, .coverage] := by
  let ctx : RunContext := ⟨event.run, .ofConfig config now, config, property⟩
  have hpipeline : ((pipelinePass ctx event.trace).map PassRecords.pass).Sublist [.pipeline] := by
    cases event.trace with
    | none => exact List.nil_sublist _
    | some nodes => exact List.Sublist.refl _
  have htests : ((testPass ctx event.tests).map PassRecords.pass).Sublist [.tests] := by
    cases event.tests with
    | none => exact List.nil_sublist _
    | some report =>
      rw [testPass]
      split
      · exact List.Sublist.refl _
      · exact List.nil_sublist _
  have hcoverage :
      ((coveragePass ctx event.coverage).map PassRecords.pass).Sublist [.coverage] := by
    cases event.coverage with
    | none => exact List.nil_sublist _
    | some report =>
      rw [coveragePass]
      split
      · exact List.Sublist.refl _
      · exact List.nil_sublist _
  have hall := ((hpipeline.append htests).append hcoverage).cons_cons PassKind.job
  rwa [← List.map_append, ← List.map_append] at hall

/-- Only the pass over the scopes looks at the trace. -/
theorem runRecords_filter_trace (trace : Option (List Trace.Node)) :
    (runRecords config now { event with trace } property).passes.filter (·.pass ≠ .pipeline) =
      (runRecords config now event property).passes.filter (·.pass ≠ .pipeline) := by
  have hnone (ctx : RunContext) (trace : Option (List Trace.Node)) :
      (pipelinePass ctx trace).filter (·.pass ≠ .pipeline) = [] := by
    refine List.filter_eq_nil_iff.mpr fun p hp => ?_
    simp [pass_of_mem_pipelinePass hp]
  simp only [runRecords, List.filter_cons, List.filter_append, hnone]

end

/-- **The account of a run.** The passes come in their order. Whatever the sink answers, each record
of a pass whose name is short enough is sent once, in order, the sink is flushed once after all of
them, and the report tells what came of it. A sink in memory grows by the records that it takes, and
what its report says of the passes over the job, the tests and the coverage does not depend on the
trace. -/
theorem reportRun_accounts (config : Config) (now : Millis) (event : Event)
    (property : Option JobProperty) :
    let built := runRecords config now event property
    (built.passes.map PassRecords.pass).Sublist [.job, .pipeline, .tests, .coverage] ∧
    (∀ (σ : Type) (sink : Sink (StateM σ)) (w : σ),
      let report := (reportRun sink config now event property w).1
      ∃ (ds : List Delivery) (flushed : Outcome),
        reportRun (sink.logging Note.push) config now event property ([], w) =
            (report, Delivery.calls ds ++ [.flush flushed],
              (reportRun sink config now event property w).2) ∧
          ds.map Delivery.pass = built.passes ∧
          (∀ d ∈ ds,
            d.sends.map Prod.fst = d.pass.records.filter (fun r => r.name.length < 255) ∧
            d.emission.sent = d.sends.countP (fun send => send.2.isOk) ∧
            d.emission.dropped = d.pass.records.countP (fun r => 255 ≤ r.name.length) ∧
            d.emission.failed = d.sends.countP (fun send => !send.2.isOk) ∧
            d.emission.sent + d.emission.dropped + d.emission.failed = d.pass.records.length ∧
            d.emission.attempted = d.pass.records.length) ∧
          report.passes = ds.map Delivery.summary ∧
          report.totals = ⟨report.total Emission.sent, report.total Emission.dropped,
            report.total Emission.failed⟩ ∧
          (report.flushError = none ↔ flushed = .ok ())) ∧
    ∀ s : MemorySink,
      (∀ r, s.takes r = true ↔ r.name.length < 255 ∧ (MemorySink.send r s).1 = .ok ()) ∧
        (reportRun MemorySink.sink config now event property s).2 =
          { s with records := s.records ++ built.all.filter s.takes } ∧
        ∀ trace : Option (List Trace.Node),
          (reportRun MemorySink.sink config now { event with trace } property s).1.passes.filter
              (·.pass ≠ .pipeline) =
            (reportRun MemorySink.sink config now event property s).1.passes.filter
              (·.pass ≠ .pipeline) := by
  refine ⟨runRecords_passes_sublist config now event property, ?_, ?_⟩
  · intro σ sink w
    obtain ⟨ds, flushed, hpasses, hcomplete, hsummaries, hflush, hlog⟩ :=
      reportRun_logging Note.push sink config now event property [] w
    refine ⟨ds, flushed, ?_, hpasses, ?_, hsummaries, RunReport.totals_eq _, hflush⟩
    · rw [hlog, Note.all_push, List.nil_append]
    · intro d hd
      have hattempted := Delivery.attempted_emission (hcomplete d hd)
      exact ⟨hcomplete d hd, rfl, rfl, rfl, hattempted, hattempted⟩
  · intro s
    refine ⟨fun r => MemorySink.takes_iff, (reportRun_memory config now event property s).2,
      fun trace => ?_⟩
    have hfilter (passes : List PassRecords) :
        (passes.map s.summary).filter (·.pass ≠ .pipeline) =
          (passes.filter (·.pass ≠ .pipeline)).map s.summary := List.filter_map
    rw [(reportRun_memory config now _ property s).1, (reportRun_memory config now _ property s).1,
      hfilter, hfilter, runRecords_filter_trace]

end BuildMetrics
