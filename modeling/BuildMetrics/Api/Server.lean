import BuildMetrics.Api.Answer
import BuildMetrics.Api.Error
import BuildMetrics.Api.Request
import BuildMetrics.Service

/-!
# The server

Answers requests, one after the other. It holds the service and what the jobs ask for. A request
that is rejected is answered without a look at either.
-/

namespace BuildMetrics.Api

/-! ## What the jobs ask for -/

/-- What each job asks for, under its full name. -/
abbrev JobRegistry : Type := List (String × JobProperty)

namespace JobRegistry

/-- What a job asks for. -/
def get? (r : JobRegistry) (job : String) : Option JobProperty := r.lookup job

/-- Forgets what a job asks for. -/
def erase (r : JobRegistry) (job : String) : JobRegistry := r.filter fun e => e.1 ≠ job

/-- Keeps what a job asks for, in place of what it asked for before. -/
def put (r : JobRegistry) (job : String) (property : JobProperty) : JobRegistry :=
  (job, property) :: r.erase job

/-- A job asks for what was kept last. -/
theorem get?_put_self (r : JobRegistry) (job : String) (property : JobProperty) :
    (r.put job property).get? job = some property := by
  simp only [put, get?, List.lookup_cons, beq_self_eq_true]

/-- A job asks for nothing once that is forgotten. -/
theorem get?_erase_self (r : JobRegistry) (job : String) : (r.erase job).get? job = none := by
  induction r with
  | nil => rfl
  | cons e r ih =>
    obtain ⟨k, p⟩ := e
    rw [erase, List.filter_cons]
    split
    · next hk =>
      have hne : (job == k) = false := beq_eq_false_iff_ne.mpr fun h => of_decide_eq_true hk h.symm
      rw [get?, List.lookup_cons, hne]
      exact ih
    · exact ih

/-- What other jobs ask for is not forgotten. -/
theorem get?_erase_of_ne {r : JobRegistry} {job other : String} (h : other ≠ job) :
    (r.erase job).get? other = r.get? other := by
  induction r with
  | nil => rfl
  | cons e r ih =>
    obtain ⟨k, p⟩ := e
    rw [erase, List.filter_cons]
    split
    · simp only [get?, List.lookup_cons] at ih ⊢
      split
      · rfl
      · exact ih
    · next hk =>
      have hkj : k = job := Decidable.byContradiction fun hn => hk (decide_eq_true hn)
      have hne : (other == k) = false := beq_eq_false_iff_ne.mpr fun ho => h (ho.trans hkj)
      simp only [get?, List.lookup_cons, hne] at ih ⊢
      exact ih

/-- What is kept for one job changes nothing for the others. -/
theorem get?_put_of_ne {r : JobRegistry} {job other : String} (h : other ≠ job)
    (property : JobProperty) : (r.put job property).get? other = r.get? other := by
  have hne : (other == job) = false := beq_eq_false_iff_ne.mpr h
  rw [put, get?, List.lookup_cons, hne]
  exact get?_erase_of_ne h

end JobRegistry

/-! ## Calls -/

/-- What the server holds. -/
structure State (m : Type → Type) where
  /-- the service -/
  service : Service m
  /-- what the jobs ask for -/
  jobs : JobRegistry

/-- What there is around a call. -/
structure Occasion (m : Type → Type) where
  /-- how sinks are opened -/
  factory : SinkFactory m
  /-- the time -/
  now : Millis
  /-- a number that no report has yet -/
  reportId : ReportId

variable {m : Type → Type} [Monad m]

namespace State

/-- The server of a configuration, if it has a normal form. -/
def ofConfig (c : Config) : Except Error (State m) := do
  match c.normalized with
  | .error e => throw (.ofConfigError e)
  | .ok c => return ⟨.ofConfig c, []⟩

/-- Works on the service. -/
def onService (action : StateT (Service m) m α) : StateT (State m) m α := fun s => do
  let (a, service) ← action s.service
  return (a, { s with service })

end State

/-- The error for a job that asks for nothing. -/
def noProperty (job : String) : Error := ⟨.notFound, "no property for job '" ++ job ++ "'"⟩

/-- The error for a step that ends before it starts. -/
def stepReversed (e : Run.StepEvent) : Error :=
  ⟨.badRequest, "step ends before it starts (" ++ toString e.endTime.toInt ++ " < " ++
    toString e.startTime.toInt ++ ")"⟩

/-- Reports a run with what its job asks for. -/
def answerRun (o : Occasion m) (event : Run.Event) :
    StateT (State m) m (Except Error RunAnswer) := do
  let property := (← get).jobs.get? event.run.jobFullName
  match ← State.onService (Service.reportRun o.factory o.now event property) with
  | .error e => return .error (.ofSinkError e)
  | .ok none => return .ok .notEmitted
  | .ok (some report) => return .ok (.ofReport o.reportId report)

/-- Reports a timed step, unless it ends before it starts. -/
def answerStep (o : Occasion m) (event : Run.StepEvent) :
    StateT (State m) m (Except Error StepAnswer) := do
  if event.endTime < event.startTime then return .error (stepReversed event)
  match ← State.onService (Service.reportStep o.factory o.now event) with
  | .error e => return .error (.ofSinkError e)
  | .ok emission => return .ok (.ofEmission emission)

/-- Puts a configuration in force. -/
def answerConfig (c : Config) : StateT (State m) m (Except Error Config) := do
  match ← State.onService (Service.update c) with
  | .error e => return .error (.ofConfigError e)
  | .ok c => return .ok c

/-- The answer to a call. -/
def Call.answer (o : Occasion m) : Call → StateT (State m) m (Except Error Json)
  | .reportRun event => return (← answerRun o event).map RunAnswer.codec.write
  | .reportStep event => return (← answerStep o event).map StepAnswer.codec.write
  | .showConfig => return .ok (Config.codec.write (← get).service.config)
  | .setConfig c => return (← answerConfig c).map Config.codec.write
  | .showProperty job => do
    match (← get).jobs.get? job with
    | none => return .error (noProperty job)
    | some property => return .ok (JobAnswer.codec.write ⟨job, property⟩)
  | .setProperty job property => do
    modify fun s => { s with jobs := s.jobs.put job property }
    return .ok (JobAnswer.codec.write ⟨job, property⟩)
  | .dropProperty job => do
    match (← get).jobs.get? job with
    | none => return .error (noProperty job)
    | some _ =>
      modify fun s => { s with jobs := s.jobs.erase job }
      return .ok (.object [("success", .bool true)])
  | .showHealth => return .ok (Health.codec.write ⟨"ok", (← get).service.config.isConfigured⟩)

/-! ## Requests -/

/-- What a request is answered with. -/
structure Response where
  /-- the status -/
  status : Nat
  /-- the body, if there is one -/
  body : Option Json

namespace Response

/-- The response without its body. -/
def bare (r : Response) : Response := ⟨r.status, none⟩

/-- The response for the outcome of a call. -/
def ofOutcome : Except Error Json → Response
  | .ok body => ⟨200, some body⟩
  | .error e => ⟨e.kind.status, some e.body⟩

end Response

/-- The response to a request. What is allowed may always be asked. -/
def respond (o : Occasion m) (r : Request) : StateT (State m) m Response := do
  if r.method = .options then return ⟨200, none⟩
  match r.call with
  | .error rejection => return ⟨rejection.status, none⟩
  | .ok call =>
    let response := Response.ofOutcome (← call.answer o)
    return if r.method = .head then response.bare else response

end BuildMetrics.Api
