import BuildMetrics.Api.Server
import BuildMetrics.Proofs.Service.Alike
import BuildMetrics.Sink.Memory
import Mathlib.Data.List.Forall2

/-!
# Requests that fail

A request that is not answered with success leaves the server as it was: what is in force, what the
jobs ask for, and the open sink. On no sink is anything called; at most an attempt to open one was
made, and it failed. A factory that does not depend on such attempts leads to the same answers to
all later requests.

* `respond_of_failed`: what a failed request leaves;
* `runsAlikeOver_respondAll`: servers that are alike give the same answers, up to the numbers of
  reports;
* `respond_failed`: both together, in any state that requests lead to.
-/

namespace BuildMetrics.Api

open Service (Tried)

/-! ## One request after the other -/

/-- A request, with the time at which it comes and the number of the report that it may make. -/
structure Visit where
  /-- the request -/
  request : Request
  /-- the time -/
  now : Millis
  /-- a number that no report has yet -/
  reportId : ReportId

section

variable {m : Type → Type} [Monad m]

/-- What there is around the request. -/
def Visit.occasion (factory : SinkFactory m) (v : Visit) : Occasion m :=
  ⟨factory, v.now, v.reportId⟩

/-- Responds to requests, one after the other. -/
def respondAll (factory : SinkFactory m) : List Visit → StateT (State m) m (List Response)
  | [] => return []
  | visit :: visits => do
    let response ← respond (visit.occasion factory) visit.request
    let responses ← respondAll factory visits
    return response :: responses

end

variable {S T α β : Type} {R : S → T → Prop} {factory : SinkFactory (StateM S)}
  {o : Occasion (StateM S)} {s : State (StateM S)} {w : S} {e : Error}

/-! ## What a call does to the service -/

/-- The answer for what came of the report of a run. -/
def RunAnswer.ofResult (id : ReportId) (result : Except SinkError (Option RunReport)) :
    Except Error RunAnswer :=
  (result.mapError .ofSinkError).map fun report => report.elim .notEmitted (.ofReport id)

/-- The answer for what came of the report of a timed step. -/
def StepAnswer.ofResult (result : Except SinkError (Option Emission)) : Except Error StepAnswer :=
  (result.mapError .ofSinkError).map .ofEmission

/-- The answer to a report of a run is what comes of it at the service. -/
theorem answerRun_eq (o : Occasion (StateM S)) (event : Run.Event) :
    answerRun o event = (do
      let property := (← get).jobs.get? event.run.jobFullName
      RunAnswer.ofResult o.reportId <$>
        State.onService (Service.reportRun o.factory o.now event property)) := by
  rw [answerRun]
  refine bind_congr fun s => ?_
  rw [map_eq_pure_bind]
  refine bind_congr fun result => ?_
  rcases result with e | _ | report <;> rfl

theorem answerStep_eq (o : Occasion (StateM S)) {event : Run.StepEvent}
    (h : ¬ event.endTime < event.startTime) :
    answerStep o event =
      StepAnswer.ofResult <$> State.onService (Service.reportStep o.factory o.now event) := by
  rw [answerStep, if_neg h, map_eq_pure_bind]
  refine bind_congr fun result => ?_
  cases result <;> rfl

theorem answerConfig_eq (given : Config) :
    (answerConfig given : StateT _ (StateM S) _) =
      Except.mapError .ofConfigError <$> State.onService (Service.update given) := by
  rw [answerConfig, map_eq_pure_bind]
  refine bind_congr fun result => ?_
  cases result <;> rfl

theorem answer_reportRun (o : Occasion (StateM S)) (event : Run.Event) :
    (Call.reportRun event).answer o =
      Except.map RunAnswer.codec.write <$> answerRun o event := by
  rw [Call.answer, map_eq_pure_bind]

theorem answer_reportStep (o : Occasion (StateM S)) (event : Run.StepEvent) :
    (Call.reportStep event).answer o =
      Except.map StepAnswer.codec.write <$> answerStep o event := by
  rw [Call.answer, map_eq_pure_bind]

theorem answer_setConfig (o : Occasion (StateM S)) (given : Config) :
    (Call.setConfig given).answer o = Except.map Config.codec.write <$> answerConfig given := by
  rw [Call.answer, map_eq_pure_bind]

theorem map_apply (f : α → β) (x : StateT (State (StateM S)) (StateM S) α) (s : State (StateM S))
    (w : S) : (f <$> x) s w = ((f (x s w).1.1, (x s w).1.2), (x s w).2) :=
  rfl

theorem get_bind_apply (f : State (StateM S) → StateT (State (StateM S)) (StateM S) α)
    (s : State (StateM S)) (w : S) : (get >>= f) s w = f s s w :=
  rfl

/-- Something that is done with the service. -/
theorem map_onService_apply (f : α → β) (x : StateT (Service (StateM S)) (StateM S) α)
    (s : State (StateM S)) (w : S) :
    (f <$> State.onService x) s w =
      ((f (x s.service w).1.1, { s with service := (x s.service w).1.2 }), (x s.service w).2) :=
  rfl

/-! ## What a failed request leaves -/

/-- The server is as it was, and at most an attempt to open a sink was made, which failed. -/
def Unchanged (factory : SinkFactory (StateM S)) (s : State (StateM S)) (w : S)
    (s' : State (StateM S)) (w' : S) : Prop :=
  s' = s ∧ Tried factory s.service w w'

theorem unchanged_self : Unchanged factory s w s w := ⟨rfl, .inl rfl⟩

theorem exists_error_of_map {ε : Type} {f : α → β} {e : ε} {result : Except ε α}
    (h : result.map f = .error e) : ∃ e', result = .error e' := by
  cases result with
  | error e' => exact ⟨e', rfl⟩
  | ok a => cases h

theorem exists_error_of_mapError {ε ε' : Type} {f : ε → ε'} {e : ε'} {result : Except ε α}
    (h : result.mapError f = .error e) : ∃ e', result = .error e' := by
  cases result with
  | error e' => exact ⟨e', rfl⟩
  | ok a => cases h

/-- An action on the sink cannot fail, so an error means that no sink was opened for it. -/
theorem unchanged_of_withSink {f : Except SinkError (Option α) → Except Error β}
    {action : Config → Sink (StateM S) → StateM S α}
    (hf : ∀ result e, f result = .error e → ∃ e', result = .error e')
    (h : ((f <$> State.onService (Service.withSink factory action)) s w).1.1 = .error e) :
    let done := (f <$> State.onService (Service.withSink factory action)) s w
    Unchanged factory s w done.1.2 done.2 := by
  rw [map_onService_apply] at h ⊢
  obtain ⟨e', herror⟩ := hf _ _ h
  obtain ⟨hservice, htried⟩ := Service.withSink_of_error herror
  dsimp only
  rw [hservice]
  exact ⟨rfl, htried⟩

/-- A report of a run that is answered with an error has changed nothing. -/
theorem answerRun_of_error {event : Run.Event} (h : (answerRun o event s w).1.1 = .error e) :
    Unchanged o.factory s w (answerRun o event s w).1.2 (answerRun o event s w).2 := by
  have hrun : answerRun o event s w = (RunAnswer.ofResult o.reportId <$> State.onService
      (Service.reportRun o.factory o.now event (s.jobs.get? event.run.jobFullName))) s w := by
    rw [answerRun_eq, get_bind_apply]
  rw [hrun, Service.reportRun] at h ⊢
  refine unchanged_of_withSink (fun result e hresult => ?_) h
  obtain ⟨e', hmapped⟩ := exists_error_of_map hresult
  exact exists_error_of_mapError hmapped

/-- A report of a timed step that is answered with an error has changed nothing. -/
theorem answerStep_of_error {event : Run.StepEvent} (h : (answerStep o event s w).1.1 = .error e) :
    Unchanged o.factory s w (answerStep o event s w).1.2 (answerStep o event s w).2 := by
  by_cases hreversed : event.endTime < event.startTime
  · rw [answerStep, if_pos hreversed]
    exact unchanged_self
  · rw [answerStep_eq o hreversed, Service.reportStep] at h ⊢
    refine unchanged_of_withSink (fun result e hresult => ?_) h
    obtain ⟨e', hmapped⟩ := exists_error_of_map hresult
    exact exists_error_of_mapError hmapped

/-- A configuration that is answered with an error has changed nothing. -/
theorem answerConfig_of_error {given : Config}
    (h : ((answerConfig given : StateT _ (StateM S) _) s w).1.1 = .error e) :
    let done := (answerConfig given : StateT _ (StateM S) _) s w
    Unchanged factory s w done.1.2 done.2 := by
  rw [answerConfig_eq, map_onService_apply] at h ⊢
  obtain ⟨e', herror⟩ := exists_error_of_mapError h
  cases hgiven : given.normalized with
  | error e =>
    rw [Service.update_of_error hgiven]
    exact unchanged_self
  | ok config =>
    obtain ⟨⟨old, held⟩, jobs⟩ := s
    cases held with
    | none =>
      rw [Service.update_of_closed hgiven] at herror
      cases herror
    | some sink =>
      rw [Service.update_of_open hgiven] at herror
      cases herror

/-- A call that is answered with an error has changed nothing. -/
theorem answer_of_error {call : Call} (h : (call.answer o s w).1.1 = .error e) :
    Unchanged o.factory s w (call.answer o s w).1.2 (call.answer o s w).2 := by
  cases call with
  | reportRun event =>
    simp only [answer_reportRun, map_apply] at h ⊢
    obtain ⟨e', herror⟩ := exists_error_of_map h
    exact answerRun_of_error herror
  | reportStep event =>
    simp only [answer_reportStep, map_apply] at h ⊢
    obtain ⟨e', herror⟩ := exists_error_of_map h
    exact answerStep_of_error herror
  | showConfig => cases h
  | setConfig given =>
    simp only [answer_setConfig, map_apply] at h ⊢
    obtain ⟨e', herror⟩ := exists_error_of_map h
    exact answerConfig_of_error herror
  | showProperty job =>
    simp only [Call.answer, get_bind_apply]
    cases s.jobs.get? job with
    | none => exact unchanged_self
    | some property => exact unchanged_self
  | setProperty job property => cases h
  | dropProperty job =>
    simp only [Call.answer, get_bind_apply] at h ⊢
    cases hproperty : s.jobs.get? job with
    | none => exact unchanged_self
    | some property =>
      rw [hproperty] at h
      cases h
  | showHealth => cases h

/-- The response for what came of the call of a request. -/
def Request.responseFor (r : Request) (outcome : Except Error Json) : Response :=
  if r.method = .head then (Response.ofOutcome outcome).bare else Response.ofOutcome outcome

/-- The status of a response does not depend on whether its body is left out. -/
theorem Request.status_responseFor (r : Request) (outcome : Except Error Json) :
    (r.responseFor outcome).status = (Response.ofOutcome outcome).status := by
  rw [responseFor]
  split
  · rfl
  · rfl

/-- A request that is not rejected is answered with what comes of its call. -/
theorem respond_of_call {r : Request} {call : Call} (hmethod : r.method ≠ .options)
    (hcall : r.call = .ok call) (o : Occasion (StateM S)) :
    respond o r = r.responseFor <$> call.answer o := by
  rw [respond, if_neg hmethod, hcall, map_eq_pure_bind]
  rfl

/-- A request that fails leaves everything as it was. -/
theorem respond_of_failed {r : Request} {response : Response} {s' : State (StateM S)} {w' : S}
    (hdone : respond o r s w = ((response, s'), w')) (hfailed : response.status ≠ 200) :
    Unchanged o.factory s w s' w' := by
  by_cases hmethod : r.method = .options
  · rw [respond, if_pos hmethod] at hdone
    cases hdone
    exact unchanged_self
  · cases hcall : r.call with
    | error rejection =>
      rw [respond, if_neg hmethod, hcall] at hdone
      cases hdone
      exact unchanged_self
    | ok call =>
      rw [respond_of_call hmethod hcall, map_apply] at hdone
      cases hdone
      rw [Request.status_responseFor] at hfailed
      cases houtcome : (call.answer o s w).1.1 with
      | error e => exact answer_of_error houtcome
      | ok body =>
        rw [houtcome] at hfailed
        exact absurd rfl hfailed

/-! ## Servers that are alike -/

/-- The response with something else made of its body. -/
def Response.mapBody (f : Json → Json) (r : Response) : Response := { r with body := r.body.map f }

/-- The servers hold services that are alike, and the same of what jobs ask for. -/
structure State.Alike (R : S → T → Prop) (s : State (StateM S)) (t : State (StateM T)) : Prop where
  /-- the services are alike -/
  service : Service.Alike R s.service t.service
  /-- the jobs ask for the same -/
  jobs : s.jobs = t.jobs

/-- The occasions have factories that are alike, the same time, and numbers that `f` takes to the
same in the answer to a report. -/
structure Occasion.Alike (R : S → T → Prop) (f : Json → Json) (o : Occasion (StateM S))
    (o' : Occasion (StateM T)) : Prop where
  /-- the factories are alike -/
  factory : o.factory.Alike R o'.factory
  /-- the times are the same -/
  now : o.now = o'.now
  /-- the numbers make no difference -/
  reportId : ∀ report, f (RunAnswer.codec.write (.ofReport o.reportId report)) =
    f (RunAnswer.codec.write (.ofReport o'.reportId report))

/-- What `f` makes of the bodies is the same. -/
def SameOutcome (f : Json → Json) (a b : Except Error Json) : Prop := a.map f = b.map f

/-- The same outcomes lead to the same responses. -/
theorem SameOutcome.ofOutcome {f : Json → Json} {a b : Except Error Json}
    (h : SameOutcome f a b) :
    (Response.ofOutcome a).mapBody f = (Response.ofOutcome b).mapBody f := by
  cases a with
  | error e =>
    cases b with
    | error e' =>
      obtain rfl := Except.error.inj h
      rfl
    | ok body => cases h
  | ok body =>
    cases b with
    | error e => cases h
    | ok body' => exact congrArg (fun body => Response.mk 200 (some body)) (Except.ok.inj h)

/-- The same outcomes lead to the same responses to a request, whatever its method. -/
theorem SameOutcome.responseFor {f : Json → Json} {a b : Except Error Json}
    (h : SameOutcome f a b) (r : Request) :
    (r.responseFor a).mapBody f = (r.responseFor b).mapBody f := by
  rw [Request.responseFor, Request.responseFor]
  split
  · exact congrArg (fun response => Response.mk response.status none) h.ofOutcome
  · exact h.ofOutcome

/-- Answers to a report differ in the number of the report only. -/
theorem sameOutcome_ofResult {f : Json → Json} {id id' : ReportId}
    (h : ∀ report, f (RunAnswer.codec.write (.ofReport id report)) =
      f (RunAnswer.codec.write (.ofReport id' report)))
    (result : Except SinkError (Option RunReport)) :
    SameOutcome f ((RunAnswer.ofResult id result).map RunAnswer.codec.write)
      ((RunAnswer.ofResult id' result).map RunAnswer.codec.write) := by
  rcases result with e | _ | report
  · rfl
  · rfl
  · exact congrArg Except.ok (h report)

/-- What services do alike, the servers that hold them do alike. -/
theorem runsAlikeOver_onService {P : α → β → Prop} {x : StateT (Service (StateM S)) (StateM S) α}
    {y : StateT (Service (StateM T)) (StateM T) β}
    (h : RunsAlikeOver (Service.Alike R) R P x y) :
    RunsAlikeOver (State.Alike R) R P (State.onService x) (State.onService y) :=
  fun s t hst => (h s.service t.service hst.service).bind fun _ _ hdone =>
    .pure ⟨hdone.1, hdone.2, hst.jobs⟩

/-- Servers that are alike put the same configurations in force. -/
theorem runsAlikeOver_answerConfig (given : Config) :
    RunsAlikeOver (State.Alike R) R Eq (answerConfig given) (answerConfig given) := by
  rw [answerConfig_eq, answerConfig_eq]
  refine (runsAlikeOver_onService (Service.runsAlikeOver_update given)).map ?_
  rintro result _ rfl
  rfl

section

variable {f : Json → Json} {o : Occasion (StateM S)} {o' : Occasion (StateM T)}
  (ho : o.Alike R f o')
include ho

/-- Servers that are alike report a timed step alike. -/
theorem runsAlikeOver_answerStep (event : Run.StepEvent) :
    RunsAlikeOver (State.Alike R) R Eq (answerStep o event) (answerStep o' event) := by
  by_cases hreversed : event.endTime < event.startTime
  · rw [answerStep, answerStep, if_pos hreversed, if_pos hreversed]
    exact .pure rfl
  · rw [answerStep_eq o hreversed, answerStep_eq o' hreversed, ho.now]
    refine (runsAlikeOver_onService (Service.runsAlikeOver_reportStep ho.factory _ _)).map ?_
    rintro result _ rfl
    rfl

/-- Servers that are alike answer every call alike. -/
theorem runsAlikeOver_answer (call : Call) :
    RunsAlikeOver (State.Alike R) R (SameOutcome f) (call.answer o) (call.answer o') := by
  cases call with
  | reportRun event =>
    rw [answer_reportRun, answer_reportRun, answerRun_eq, answerRun_eq, ho.now]
    refine RunsAlikeOver.map (RunsAlikeOver.get.bind fun s t hst => ?_) fun _ _ h => h
    rw [hst.jobs]
    refine (runsAlikeOver_onService (Service.runsAlikeOver_reportRun ho.factory _ _ _)).map ?_
    rintro result _ rfl
    exact sameOutcome_ofResult ho.reportId result
  | reportStep event =>
    rw [answer_reportStep, answer_reportStep]
    refine (runsAlikeOver_answerStep ho event).map ?_
    rintro result _ rfl
    rfl
  | showConfig =>
    exact RunsAlikeOver.get.bind fun s t hst => .pure (by rw [hst.service.config]; rfl)
  | setConfig given =>
    rw [answer_setConfig, answer_setConfig]
    refine (runsAlikeOver_answerConfig given).map ?_
    rintro result _ rfl
    rfl
  | showProperty job =>
    refine RunsAlikeOver.get.bind fun s t hst => ?_
    rw [hst.jobs]
    cases t.jobs.get? job with
    | none => exact .pure rfl
    | some property => exact .pure rfl
  | setProperty job property =>
    refine RunsAlikeOver.bind_eq (.modify ?_) fun _ => .pure rfl
    exact fun s t hst => ⟨hst.service, by rw [hst.jobs]⟩
  | dropProperty job =>
    refine RunsAlikeOver.get.bind fun s t hst => ?_
    rw [hst.jobs]
    cases t.jobs.get? job with
    | none => exact .pure rfl
    | some property =>
      refine RunsAlikeOver.bind_eq (.modify ?_) fun _ => .pure rfl
      exact fun s t hst => ⟨hst.service, by rw [hst.jobs]⟩
  | showHealth =>
    exact RunsAlikeOver.get.bind fun s t hst => .pure (by rw [hst.service.config]; rfl)

/-- Servers that are alike respond to every request alike. -/
theorem runsAlikeOver_respond (r : Request) :
    RunsAlikeOver (State.Alike R) R (fun a b => a.mapBody f = b.mapBody f) (respond o r)
      (respond o' r) := by
  by_cases hmethod : r.method = .options
  · rw [respond, respond, if_pos hmethod, if_pos hmethod]
    exact .pure rfl
  · cases hcall : r.call with
    | error rejection =>
      rw [respond, respond, if_neg hmethod, if_neg hmethod, hcall]
      exact .pure rfl
    | ok call =>
      rw [respond_of_call hmethod hcall, respond_of_call hmethod hcall]
      exact (runsAlikeOver_answer ho call).map fun _ _ h => h.responseFor r

end

/-- Servers that are alike respond alike to all requests, one after the other. -/
theorem runsAlikeOver_respondAll {f : Json → Json} {factory : SinkFactory (StateM S)}
    {factory' : SinkFactory (StateM T)} {visits visits' : List Visit}
    (h : List.Forall₂ (fun v v' => v.request = v'.request ∧
      (v.occasion factory).Alike R f (v'.occasion factory')) visits visits') :
    RunsAlikeOver (State.Alike R) R
      (fun a b => a.map (Response.mapBody f) = b.map (Response.mapBody f))
      (respondAll factory visits) (respondAll factory' visits') := by
  induction h with
  | nil => exact .pure rfl
  | @cons v v' visits visits' hvisit _ ih =>
    rw [respondAll, respondAll, hvisit.1]
    refine (runsAlikeOver_respond hvisit.2 v'.request).bind fun a b hab => ?_
    refine ih.bind fun as bs hresponses => .pure ?_
    rw [List.map_cons, List.map_cons, hab, hresponses]

/-! ## Failed requests do not matter -/

theorem Response.mapBody_id : mapBody id = id := by
  funext r
  rw [mapBody, Option.map_id]
  rfl

/-- A body without the number of the report. -/
def unnumbered : Json → Json
  | .object members => .object (members.filter fun e => e.1 ≠ "report_id")
  | body => body

/-- Without its number the answer to a report does not depend on the number. -/
theorem unnumbered_write_ofReport (id id' : ReportId) (report : RunReport) :
    unnumbered (RunAnswer.codec.write (.ofReport id report)) =
      unnumbered (RunAnswer.codec.write (.ofReport id' report)) := by
  have hwrite (id : ReportId) : RunAnswer.codec.write (.ofReport id report) =
      .object [("emitted", .bool true), ("report_id", .string id.text),
        ("report", RunReport.codec.write report)] := rfl
  rw [hwrite, hwrite]
  simp [unnumbered]

/-- The same requests at the same times; the numbers of the reports may be others. -/
def Recur : List Visit → List Visit → Prop :=
  List.Forall₂ fun v v' => v.request = v'.request ∧ v.now = v'.now

/-- A server is like itself when nothing has been opened yet. -/
theorem alike_ofConfig (config : Config) (jobs : JobRegistry) :
    State.Alike R ⟨.ofConfig config, jobs⟩ ⟨.ofConfig config, jobs⟩ :=
  ⟨⟨rfl, .none⟩, rfl⟩

section

variable {σ : Type}

/-- Requests that come again are answered alike up to the numbers of reports. -/
theorem runsAlikeOver_recur {R : σ → σ → Prop} {factory : SinkFactory (StateM σ)}
    (hfactory : factory.Alike R factory) {visits visits' : List Visit} (h : Recur visits visits') :
    RunsAlikeOver (State.Alike R) R
      (fun a b => a.map (Response.mapBody unnumbered) = b.map (Response.mapBody unnumbered))
      (respondAll factory visits) (respondAll factory visits') :=
  runsAlikeOver_respondAll (h.imp fun _ _ hvisit =>
    ⟨hvisit.1, hfactory, hvisit.2, unnumbered_write_ofReport _ _⟩)

theorem recur_self (visits : List Visit) : Recur visits visits :=
  List.forall₂_same.mpr fun _ _ => ⟨rfl, rfl⟩

/-! ### Beside a ledger -/

/-- A ledger beside the world makes no difference to a request. -/
theorem alike_occasion_logging (factory : SinkFactory (StateM σ)) (v : Visit) :
    (v.occasion factory).Alike Logged id (v.occasion factory.logging) :=
  ⟨factory.alike_logging, rfl, fun _ => rfl⟩

/-- Beside a ledger requests lead to the same responses, to a state that is alike, and to the same
world. -/
theorem respondAll_logging (factory : SinkFactory (StateM σ)) (config : Config)
    (jobs : JobRegistry) (visits : List Visit) (w : σ) {responses : List Response}
    {state : State (StateM σ)} {v : σ}
    (h : respondAll factory visits ⟨.ofConfig config, jobs⟩ w = ((responses, state), v)) :
    ∃ (logged : State (StateM (Ledger × σ))) (ledger : Ledger),
      respondAll factory.logging visits ⟨.ofConfig config, jobs⟩ (.empty, w) =
        ((responses, logged), ledger, v) ∧ State.Alike Logged state logged := by
  have hall := runsAlikeOver_respondAll (R := Logged) (f := id) (List.forall₂_same.mpr
    fun v (_ : v ∈ visits) => ⟨rfl, alike_occasion_logging factory v⟩)
  obtain ⟨⟨hresponses, halike⟩, hworld⟩ :=
    hall ⟨.ofConfig config, jobs⟩ ⟨.ofConfig config, jobs⟩ (alike_ofConfig config jobs) w
      (Ledger.empty, w) rfl
  rcases hlogged : respondAll factory.logging visits ⟨.ofConfig config, jobs⟩ (Ledger.empty, w) with
    ⟨⟨responses', logged⟩, ledger, v'⟩
  simp only [h, hlogged, Response.mapBody_id, List.map_id] at hresponses halike hworld
  obtain rfl : v = v' := hworld
  subst hresponses
  exact ⟨logged, ledger, rfl, halike⟩

/-- With a ledger beside the world, a request is answered as without one. -/
theorem respond_logging {factory : SinkFactory (StateM σ)} {visit : Visit}
    {state state' : State (StateM σ)} {logged : State (StateM (Ledger × σ))} {v v' : σ}
    {response : Response} (halike : State.Alike Logged state logged) (ledger : Ledger)
    (h : respond (visit.occasion factory) visit.request state v = ((response, state'), v')) :
    ∃ (logged' : State (StateM (Ledger × σ))) (ledger' : Ledger),
      respond (visit.occasion factory.logging) visit.request logged (ledger, v) =
        ((response, logged'), ledger', v') := by
  obtain ⟨⟨hresponse, -⟩, hworld⟩ :=
    runsAlikeOver_respond (alike_occasion_logging factory visit) visit.request state logged halike v
      (ledger, v) rfl
  rcases hlogged : respond (visit.occasion factory.logging) visit.request logged (ledger, v) with
    ⟨⟨response', logged'⟩, ledger', v''⟩
  simp only [h, hlogged, Response.mapBody_id, id_eq] at hresponse hworld
  obtain rfl : v' = v'' := hworld
  subst hresponse
  exact ⟨logged', ledger', rfl⟩

/-- **A failed request might as well not have been made.** Requests lead to some state, and the next
one is not answered with success. Then the state stays as it is, with its configuration, what the
jobs ask for, and the open sink. At most an attempt to open a sink was made, which failed; so with a
ledger beside the world, in which the same happens, the sinks that were opened and the calls on them
are those of before. And if the factory does not depend on such attempts, all later requests get the
same answers as if this one had not been made, up to the numbers of reports. -/
theorem respond_failed (factory : SinkFactory (StateM σ)) (config : Config) (jobs : JobRegistry)
    (before : List Visit) (visit : Visit) (w : σ) {responses : List Response}
    {state state' : State (StateM σ)} {v v' : σ} {response : Response}
    (hbefore : respondAll factory before ⟨.ofConfig config, jobs⟩ w = ((responses, state), v))
    (hvisit : respond (visit.occasion factory) visit.request state v = ((response, state'), v'))
    (hfailed : response.status ≠ 200) :
    state' = state ∧
    Tried factory state.service v v' ∧
    (∃ (logged : State (StateM (Ledger × σ))) (ledger ledger' : Ledger),
      respondAll factory.logging before ⟨.ofConfig config, jobs⟩ (.empty, w) =
        ((responses, logged), ledger, v) ∧
      respond (visit.occasion factory.logging) visit.request logged (ledger, v) =
        ((response, logged), ledger', v') ∧
      ledger'.opened = ledger.opened) ∧
    ∀ R, factory.Indifferent R → ∀ later later', Recur later later' →
      (respondAll factory later state' v').1.1.map (Response.mapBody unnumbered) =
        (respondAll factory later' state v).1.1.map (Response.mapBody unnumbered) := by
  obtain ⟨rfl, htried⟩ := respond_of_failed hvisit hfailed
  refine ⟨rfl, htried, ?_, ?_⟩
  · obtain ⟨logged, ledger, hlogged, halike⟩ :=
      respondAll_logging factory config jobs before w hbefore
    obtain ⟨logged', ledger', hdone⟩ := respond_logging halike ledger hvisit
    obtain ⟨rfl, htried'⟩ := respond_of_failed hdone hfailed
    exact ⟨_, ledger, ledger', hlogged, hdone, htried'.opened_eq⟩
  · intro R hfactory later later' hlater
    obtain ⟨⟨-, halike⟩, -⟩ := runsAlikeOver_recur hfactory.alike (recur_self before) _ _
      (alike_ofConfig config jobs) w w (hfactory.refl w)
    rw [hbefore] at halike
    have hworlds : R v' v := htried.related hfactory
    exact (runsAlikeOver_recur hfactory.alike hlater _ _ halike v' v hworlds).1.1

end

/-- Opens the sink in memory for one port only, and counts the attempts to open another. -/
def choosyFactory : SinkFactory (StateM (Nat × MemorySink)) := fun endpoint (attempts, held) =>
  if endpoint.port = 2878 then
    (.ok (MemorySink.sink.logging fun _ attempts => attempts), attempts, held)
  else (.error (.connect endpoint.text "refused"), attempts + 1, held)

/-- How often it was tried makes no difference. -/
theorem indifferent_choosyFactory : choosyFactory.Indifferent fun w v => w.2 = v.2 where
  refl _ := rfl
  alike := by
    rintro endpoint ⟨attempts, held⟩ ⟨attempts', _⟩ rfl
    rw [choosyFactory, choosyFactory]
    split
    · refine ⟨.ok ⟨fun r => ?_, ?_, ?_⟩, rfl⟩
      all_goals
        rintro ⟨attempts, held⟩ ⟨attempts', _⟩ rfl
        exact ⟨rfl, rfl⟩
    · exact ⟨.error _, rfl⟩
  failed := by
    rintro endpoint ⟨attempts, held⟩ e ⟨attempts', held'⟩ hfailed
    rw [choosyFactory] at hfailed
    split at hfailed
    · cases hfailed
    · cases hfailed
      rfl

/-- The report of a timed step. -/
def stepVisit : Visit :=
  ⟨⟨.post, "/steps", some "application/json", "[\"build\",\"7\",\"compile\",0,1]"⟩, 1, 0⟩

/-- The proxy is moved to another port. -/
def moveVisit : Visit :=
  ⟨⟨.put, "/config", some "application/json", "[\"proxy\",2879]"⟩, 2, 0⟩

/-- A step is reported, and the proxy is moved to a port for which no sink can be opened. -/
def afterMove : (List Response × State (StateM (Nat × MemorySink))) × Nat × MemorySink :=
  respondAll choosyFactory [stepVisit, moveVisit] ⟨.ofConfig Service.proxied.cleaned, []⟩
    (0, MemorySink.empty)

/-- A step is to be reported then. -/
def afterRefusal : (Response × State (StateM (Nat × MemorySink))) × Nat × MemorySink :=
  respond (stepVisit.occasion choosyFactory) stepVisit.request afterMove.1.2 afterMove.2

/-- The proxy is moved to a port for which no sink can be opened, and the step that is then reported
fails. -/
theorem respond_failed_refused :
    afterMove.1.1.map Response.status = [200, 200] ∧ afterRefusal.1.1.status = 503 ∧
    (afterMove.2.1, afterRefusal.2.1) = (0, 1) ∧
    (afterMove.2.2.records.length, afterRefusal.2.2.records.length) = (1, 1) ∧
    afterRefusal.1.2 = afterMove.1.2 ∧
    ∀ later, (respondAll choosyFactory later afterRefusal.1.2 afterRefusal.2).1.1.map
        (Response.mapBody unnumbered) =
      (respondAll choosyFactory later afterMove.1.2 afterMove.2).1.1.map
        (Response.mapBody unnumbered) := by
  have hstatuses : afterMove.1.1.map Response.status = [200, 200] := by decide +kernel
  have hfailed : afterRefusal.1.1.status = 503 := by decide +kernel
  have hattempts : (afterMove.2.1, afterRefusal.2.1) = (0, 1) := by decide +kernel
  have hrecords : (afterMove.2.2.records.length, afterRefusal.2.2.records.length) = (1, 1) := by
    decide +kernel
  rcases hbefore : afterMove with ⟨⟨responses, state⟩, v⟩
  rcases hvisit : afterRefusal with ⟨⟨response, state'⟩, v'⟩
  rw [hbefore] at hstatuses hrecords hattempts
  rw [hvisit] at hfailed hattempts hrecords
  rw [afterRefusal, hbefore] at hvisit
  obtain ⟨rfl, -, -, hlater⟩ := respond_failed choosyFactory Service.proxied.cleaned []
    [stepVisit, moveVisit] stepVisit (0, MemorySink.empty) hbefore hvisit (by rw [hfailed]; decide)
  exact ⟨hstatuses, hfailed, hattempts, hrecords, rfl,
    fun later => hlater _ indifferent_choosyFactory _ _ (recur_self later)⟩

end BuildMetrics.Api
