import BuildMetrics.Proofs.Api.Failure
import BuildMetrics.Proofs.Report.Alike
import BuildMetrics.Proofs.Text.FormEncoding

/-!
# Names of jobs in form encoding

The name of a job may come in form encoding. Its segment is that of the decoded name, so the records
of a run do not show how the name came. What the job asks for is kept under the name as it came,
and there the two names are two jobs.

* `Event.runRecords_named`: the records of a run with either name;
* `respond_encoded`: the report of a run with either name, where the same is asked for under both;
* `respond_encoded_property`: a job for which something is asked under one name only.
-/

namespace BuildMetrics

open Run

/-- A name and the same name in form encoding have the same segment. -/
theorem Name.job_of_decodeForm {encoded name : String} (h : '%' ∉ name.toList)
    (hdecode : Text.decodeForm encoded = name) : Name.job encoded = Name.job name := by
  rw [Name.job, Name.job, hdecode, Text.decodeForm_of_not_mem h]

namespace Run

/-- The run under another name of its job. -/
def Event.named (e : Event) (name : String) : Event :=
  { e with run := { e.run with jobFullName := name } }

/-- The records of a run show the segment of its job and nothing else of its name. -/
theorem Event.runRecords_named (e : Event) {name name' : String}
    (h : Name.job name = Name.job name') (config : Config) (now : Millis)
    (property : Option JobProperty) :
    runRecords config now (e.named name) property =
      runRecords config now (e.named name') property :=
  runRecords_eq ⟨h, rfl, rfl, rfl, rfl, rfl, rfl, rfl⟩ rfl rfl rfl

end Run

variable {m : Type → Type} [Monad m]

/-- Runs with the same records are reported in the same way. -/
theorem Service.reportRun_eq {now : Millis} {e e' : Event} {property : Option JobProperty}
    (h : ∀ config, runRecords config now e property = runRecords config now e' property)
    (factory : SinkFactory m) :
    reportRun factory now e property = reportRun factory now e' property := by
  have haction (config : Config) (sink : Sink m) :
      BuildMetrics.reportRun sink config now e property =
        BuildMetrics.reportRun sink config now e' property := by
    rw [BuildMetrics.reportRun, BuildMetrics.reportRun, h]
  simp only [reportRun, haction]

namespace Api

/-- The request is to report a run. -/
structure Request.Reports (r : Request) (event : Event) : Prop where
  /-- runs are reported with one method -/
  method : r.method = .post
  /-- the body gives the run -/
  call : r.call = .ok (.reportRun event)

variable {S : Type}

/-- What the report of a run does, and what it is answered with. -/
theorem Request.Reports.respond_eq {r : Request} {event : Event} (h : r.Reports event)
    {o : Occasion (StateM S)} {service service' : Service (StateM S)} {jobs : JobRegistry}
    {w w' : S} {result : Except SinkError (Option RunReport)}
    (hdone : Service.reportRun o.factory o.now event (jobs.get? event.run.jobFullName) service w =
      ((result, service'), w')) :
    respond o r ⟨service, jobs⟩ w =
      ((.ofOutcome ((RunAnswer.ofResult o.reportId result).map RunAnswer.codec.write),
        ⟨service', jobs⟩), w') := by
  have hresponse (outcome : Except Error Json) : r.responseFor outcome = .ofOutcome outcome := by
    rw [Request.responseFor, h.method, if_neg (by decide)]
  have hmethod : r.method ≠ .options := by
    rw [h.method]
    decide
  rw [respond_of_call hmethod h.call, map_apply, hresponse, answer_reportRun, map_apply,
    answerRun_eq, get_bind_apply, map_onService_apply]
  dsimp only
  rw [hdone]

/-- **A name of a job in form encoding.** The report of a run under such a name and one under the
decoded name have the same effect and the same answer up to the number of the report, if the job
asks for the same under either name. -/
theorem respond_encoded {encoded name : String} (hname : '%' ∉ name.toList)
    (hdecode : Text.decodeForm encoded = name) {visit visit' : Visit} {event : Event}
    (hvisit : visit.request.Reports (event.named encoded))
    (hvisit' : visit'.request.Reports (event.named name)) (hnow : visit.now = visit'.now)
    {jobs jobs' : JobRegistry} (hjobs : jobs.get? encoded = jobs'.get? name)
    (factory : SinkFactory (StateM S)) (service : Service (StateM S)) (w : S) :
    ∃ response response' service' w',
      respond (visit.occasion factory) visit.request ⟨service, jobs⟩ w =
        ((response, ⟨service', jobs⟩), w') ∧
      respond (visit'.occasion factory) visit'.request ⟨service, jobs'⟩ w =
        ((response', ⟨service', jobs'⟩), w') ∧
      response.mapBody unnumbered = response'.mapBody unnumbered := by
  have hrecords (config : Config) :
      runRecords config visit.now (event.named encoded) (jobs.get? encoded) =
        runRecords config visit.now (event.named name) (jobs.get? encoded) :=
    event.runRecords_named (Name.job_of_decodeForm hname hdecode) config _ _
  rcases hdone : Service.reportRun factory visit.now (event.named encoded) (jobs.get? encoded)
    service w with ⟨⟨result, service'⟩, w'⟩
  have hdone' : Service.reportRun factory visit'.now (event.named name) (jobs'.get? name) service
      w = ((result, service'), w') := by
    rw [← hnow, ← hjobs, ← Service.reportRun_eq hrecords, hdone]
  refine ⟨_, _, service', w', hvisit.respond_eq hdone, hvisit'.respond_eq hdone', ?_⟩
  exact (sameOutcome_ofResult (unnumbered_write_ofReport _ _) result).ofOutcome

/-- The run of a call to report one, if nothing is known of it but the run as a whole. -/
def Call.bareRun? : Call → Option Summary
  | .reportRun ⟨run, none, none, none⟩ => some run
  | _ => none

/-- A request is to report a run if its call is to report one of which nothing else is known. -/
theorem Request.reports_of_bareRun {r : Request} {run : Summary} (hmethod : r.method = .post)
    (h : r.call.toOption.bind Call.bareRun? = some run) : r.Reports ⟨run, none, none, none⟩ := by
  obtain ⟨call, hcall, hrun⟩ := Option.bind_eq_some_iff.mp h
  rw [Call.bareRun?.eq_def] at hrun
  split at hrun
  · cases hrun
    cases hdone : r.call with
    | error rejection =>
      rw [hdone] at hcall
      cases hcall
    | ok call =>
      rw [hdone] at hcall
      cases hcall
      exact ⟨hmethod, hdone⟩
  · cases hrun

/-- A run with a parameter. -/
def branchRun : Event := ⟨⟨"", "1", 5, .success, [⟨"BRANCH", some "main"⟩]⟩, none, none, none⟩

/-- The report of the run, for a job of this name. -/
def branchVisit (job : String) : Visit where
  request := ⟨.post, "/runs", some "application/json",
    "\x7b\"job_full_name\":\"" ++ job ++ "\",\"build_id\":\"1\",\"duration_ms\":5," ++
      "\"result\":\"SUCCESS\",\"parameters\":[\x7b\"name\":\"BRANCH\",\"value\":\"main\"\x7d]\x7d"⟩
  now := 2
  reportId := 1

/-- The report of one run under both names, where the job asks for its parameters under both. -/
theorem respond_encoded_branch :
    (branchVisit "Team%20A").request.Reports (branchRun.named "Team%20A") ∧
    (branchVisit "Team A").request.Reports (branchRun.named "Team A") ∧
    ∃ response response' service w,
      respond ((branchVisit "Team%20A").occasion MemorySink.factory)
        (branchVisit "Team%20A").request
        ⟨.ofConfig Service.proxied.cleaned, [("Team%20A", branchProperty)]⟩ MemorySink.empty =
          ((response, ⟨service, [("Team%20A", branchProperty)]⟩), w) ∧
      respond ((branchVisit "Team A").occasion MemorySink.factory) (branchVisit "Team A").request
        ⟨.ofConfig Service.proxied.cleaned, [("Team A", branchProperty)]⟩ MemorySink.empty =
          ((response', ⟨service, [("Team A", branchProperty)]⟩), w) ∧
      response.mapBody unnumbered = response'.mapBody unnumbered := by
  have hencoded : (branchVisit "Team%20A").request.Reports (branchRun.named "Team%20A") :=
    Request.reports_of_bareRun rfl (by decide +kernel)
  have hplain : (branchVisit "Team A").request.Reports (branchRun.named "Team A") :=
    Request.reports_of_bareRun rfl (by decide +kernel)
  refine ⟨hencoded, hplain, ?_⟩
  exact respond_encoded (by decide) (by decide +kernel) hencoded hplain rfl rfl _ _ _

/-- The job asks for its parameters. The name in the path is escaped. -/
def askVisit : Visit :=
  ⟨⟨.put, "/jobs/Team%20A/property", some "application/json",
    "\x7b\"enable_parameters\":true\x7d"⟩, 1, 0⟩

/-- The job asks for its parameters, then the run is reported under a name: the statuses of the
answers, and the names and tags of the records that were sent. -/
def afterBranch (job : String) : List Nat × List (String × TagEntries) :=
  let done := respondAll MemorySink.factory [askVisit, branchVisit job]
    ⟨.ofConfig Service.proxied.cleaned, []⟩ MemorySink.empty
  (done.1.1.map Response.status, done.2.records.map fun r => (r.name, r.tags.entries))

/-- What a job asks for under its name does not count for a run under the name in form encoding: the
parameter becomes a tag of the one record and not of the other. -/
theorem respond_encoded_property :
    '%' ∉ "Team A".toList ∧ Text.decodeForm "Team%20A" = "Team A" ∧
    afterBranch "Team A" = ([200, 200], [("wjp.job.team_a",
      [("Status", "SUCCESS"), ("Build Number", "1"), ("p_BRANCH", "main")])]) ∧
    afterBranch "Team%20A" = ([200, 200], [("wjp.job.team_a",
      [("Status", "SUCCESS"), ("Build Number", "1")])]) := by
  decide +kernel

end Api

end BuildMetrics
