import BuildMetrics.Command.Run
import BuildMetrics.Proofs.Codecs
import BuildMetrics.Proofs.Config
import BuildMetrics.Proofs.Name.Clean
import BuildMetrics.Proofs.Report.Requested
import BuildMetrics.Proofs.Sink.Proxy

/-!
# Sending the records of a run

What the command that sends the records of a run does, on any network, and the code it ends with.

* `readInputs_cases`: the files hold what they should, or nothing more is done;
* `sendOutcome_performAll`: the code tells whether the sink refused anything;
* `runSend_code`: what the code tells of all of it;
* `opened_of_runSend`: if it is 0, the lines of the others have arrived at the proxy;
* `runSend_of_all_dropped`: it does not tell of records that are too long.
-/

namespace BuildMetrics.Command

open Run (Event)

variable {m : Type → Type} [Monad m]

/-- A host whose files stay as they are. -/
def Host.ofFiles (contents : String → Except String (List UInt8)) (network : Network m)
    (now : Millis) : Host m :=
  ⟨fun path => pure (contents path), network, now⟩

variable {contents : String → Except String (List UInt8)} {files : RunFiles} {event : String}
  {property : Option String} {i : Inputs}

/-- The configuration for a run. -/
def configOf (contents : String → Except String (List UInt8)) (files : RunFiles) :
    Except ConfigError Config :=
  match files.config with
  | none => .ok .default
  | some path => Config.load path (contents path)

/-- What the job asks for, if it asks for anything. -/
def propertyOf : Option String → Except Json.Fault (Option JobProperty)
  | none => .ok none
  | some text => (JobProperty.codec.decode text).map some

/-- The files of the event and of what the job asks for are texts. -/
structure AreTexts (contents : String → Except String (List UInt8)) (files : RunFiles)
    (event : String) (property : Option String) : Prop where
  /-- the event -/
  event : contents files.event = .ok (Text.utf8Bytes event)
  /-- what the job asks for -/
  property : files.property.map contents = property.map fun text => .ok (Text.utf8Bytes text)

/-- The files of a run hold what they should. -/
structure Loads (contents : String → Except String (List UInt8)) (files : RunFiles)
    (event : String) (property : Option String) (i : Inputs) : Prop where
  /-- the configuration -/
  config : configOf contents files = .ok i.config
  /-- the run -/
  event : Event.codec.decode event = .ok i.event
  /-- what the job asks for -/
  property : propertyOf property = .ok i.property

/-- A file with a text gives what the text holds. -/
theorem valueOf_text {α : Type} (c : Json.Codec α) (path text : String) :
    valueOf c path (.ok (Text.utf8Bytes text)) = (c.decode text).mapError (.notJson path) := by
  rw [valueOf, Text.decodeUtf8?_eq_some_iff.mpr rfl]

section

variable {S α β : Type} {action : StateM S (Except Failure α)} {w w' : S} {a : α} {f : Failure}

/-- An action that succeeds is followed by the next one. -/
theorem run_bind_of_ok (h : action w = (.ok a, w')) (next : α → ExceptT Failure (StateM S) β) :
    (ExceptT.mk action >>= next).run w = (next a).run w' := by
  rw [ExceptT.run_bind]
  exact bind_apply_of h _

/-- An action that fails is the last one. -/
theorem run_bind_of_error (h : action w = (.error f, w'))
    (next : α → ExceptT Failure (StateM S) β) :
    (ExceptT.mk action >>= next).run w = (.error f, w') := by
  rw [ExceptT.run_bind]
  exact bind_apply_of h _

end

section

variable {S : Type} {network : Network (StateM S)} {now : Millis} {w : S}

/-- The configuration that is read is that of its file, or the default one if no file is named. -/
theorem readConfig_ofFiles :
    readConfig (.ofFiles contents network now) files.config w =
      ((configOf contents files).mapError (.badConfig (files.config.getD "")), w) := by
  rw [configOf]
  cases files.config <;> rfl

/-- A value is read from the text of its file. -/
theorem readValue_ofFiles {α : Type} {path text : String}
    (h : contents path = .ok (Text.utf8Bytes text)) (c : Json.Codec α) :
    readValue (.ofFiles contents network now) c path w =
      ((c.decode text).mapError (.notJson path), w) := by
  rw [← valueOf_text, ← h]
  rfl

/-- What the job asks for is read from its file if one is named. -/
theorem readOptional_ofFiles
    (h : files.property.map contents = property.map fun text => .ok (Text.utf8Bytes text)) :
    readOptional (.ofFiles contents network now) JobProperty.codec files.property w =
      ((propertyOf property).mapError (.notJson (files.property.getD "")), w) := by
  cases hpath : files.property with
  | none =>
    rw [hpath] at h
    cases property with
    | none => rfl
    | some text => cases h
  | some path =>
    rw [hpath] at h
    cases property with
    | none => cases h
    | some text =>
      have hvalue := @readValue_ofFiles contents S network now w _ _ _ (Option.some.inj h)
        JobProperty.codec
      refine (bind_apply_of hvalue _).trans ?_
      rw [propertyOf]
      cases JobProperty.codec.decode text <;> rfl

/-- **The files hold what they should, or reading them fails.** -/
theorem readInputs_cases (htexts : AreTexts contents files event property) :
    (∃ i, Loads contents files event property i ∧
      (readInputs (.ofFiles contents network now) files).run w = (.ok i, w)) ∨
    (¬ (∃ i, Loads contents files event property i) ∧
      ∃ f : Failure, f.code = 1 ∧
        (readInputs (.ofFiles contents network now) files).run w = (.error f, w)) := by
  have hconfig := @readConfig_ofFiles contents files S network now w
  have hevent := @readValue_ofFiles contents S network now w _ _ _ htexts.event Event.codec
  have hproperty := @readOptional_ofFiles contents files property S network now w htexts.property
  rw [readInputs]
  -- the files are read one after the other, and the first that is wrong ends it
  cases hc : configOf contents files with
  | error e =>
    rw [hc] at hconfig
    refine .inr ⟨fun ⟨i, hi⟩ => ?_, _, rfl, run_bind_of_error hconfig _⟩
    cases hc.symm.trans hi.config
  | ok config =>
    rw [hc] at hconfig
    rw [run_bind_of_ok hconfig]
    cases he : Event.codec.decode event with
    | error fault =>
      rw [he] at hevent
      refine .inr ⟨fun ⟨i, hi⟩ => ?_, _, rfl, run_bind_of_error hevent _⟩
      cases he.symm.trans hi.event
    | ok event =>
      rw [he] at hevent
      rw [run_bind_of_ok hevent]
      cases hp : propertyOf property with
      | error fault =>
        rw [hp] at hproperty
        refine .inr ⟨fun ⟨i, hi⟩ => ?_, _, rfl, run_bind_of_error hproperty _⟩
        cases hp.symm.trans hi.property
      | ok wanted =>
        rw [hp] at hproperty
        exact .inl ⟨⟨config, event, wanted⟩, ⟨hc, he, hp⟩, run_bind_of_ok hproperty _⟩

/-! ## What happens then -/

/-- Where there is nowhere to send to, the code is 1. -/
theorem code_of_target {c : Config} {hostname : Option String} {port : Option UInt32} {f : Failure}
    (h : target c hostname port = .error f) : f.code = 1 := by
  rw [target] at h
  cases hnormalized : (override c hostname port).normalized with
  | error e =>
    rw [hnormalized] at h
    cases h
    rfl
  | ok c =>
    rw [hnormalized] at h
    cases hendpoint : c.endpoint? with
    | none =>
      simp only [hendpoint] at h
      cases h
      rfl
    | some endpoint =>
      simp only [hendpoint] at h
      cases h

section

variable {host : Host (StateM S)} {hostname : Option String} {port : Option UInt32}

/-- Where the inputs cannot be read, nothing else is done. -/
theorem runSend_of_error {f : Failure} (h : (readInputs host files).run w = (.error f, w)) :
    runSend host files hostname port w = (.ofFailure f, w) :=
  bind_apply_of h _

/-- Where there is nowhere to send to, nothing is sent. -/
theorem runSend_of_target_error {f : Failure} (h : (readInputs host files).run w = (.ok i, w))
    (htarget : target i.config hostname port = .error f) :
    runSend host files hostname port w = (.ofFailure f, w) := by
  refine (bind_apply_of h _).trans ?_
  simp only [htarget]
  rfl

/-- The run is reported, and then the sink is let go. -/
theorem runSend_of_target {config : Config} {endpoint : Endpoint}
    (h : (readInputs host files).run w = (.ok i, w))
    (htarget : target i.config hostname port = .ok (config, endpoint)) :
    let reported := reportRun (ProxySink.sink host.network).joined config host.now i.event
      i.property (.ofEndpoint endpoint, w)
    let closed := (ProxySink.sink host.network).joined.close reported.2
    runSend host files hostname port w =
      (sendOutcome endpoint reported.1 closed.1, closed.2.2) := by
  refine (bind_apply_of h _).trans ?_
  simp only [htarget, reportRun_joined]
  -- what is left holds of any sink, and the one at hand is large
  generalize ProxySink.sink host.network = sink
  generalize reportRun sink config host.now i.event i.property = reported
  rfl

end

/-- The code tells whether anything was refused. -/
theorem code_sendOutcome (endpoint : Endpoint) (report : RunReport)
    (closed : BuildMetrics.Outcome) :
    (sendOutcome endpoint report closed).code =
      if report.flushError = none ∧ closed = .ok () ∧ report.totals.failed = 0 then 0 else 3 := by
  rw [sendOutcome]
  cases hflush : report.flushError with
  | some reason => simp [Failure.code]
  | none =>
    cases closed with
    | error e => simp [SinkError.message?, Failure.code]
    | ok u =>
      cases hfailed : report.totals.failed with
      | zero => simp [SinkError.message?]
      | succ n => simp [SinkError.message?]

/-- The requests for a run: to take the records that are not too long, to deliver them and to let
go. -/
def runRequests (rs : List Record) : List SinkRequest := sendRequests rs ++ [.flush, .close]

/-- The requests of a report are those of its records, then one to flush and one to close. -/
theorem performAll_runRequests {sink : Sink (StateM S)} {rs : List Record} {w w₁ w₂ w₃ : S}
    {sent : List BuildMetrics.Outcome} {flushed closed : BuildMetrics.Outcome}
    (hsent : sink.performAll (sendRequests rs) w = (sent, w₁))
    (hflushed : sink.flush w₁ = (flushed, w₂)) (hclosed : sink.close w₂ = (closed, w₃)) :
    sink.performAll (runRequests rs) w = (sent ++ [flushed, closed], w₃) := by
  have hflush : sink.perform .flush w₁ = (flushed, w₂) := hflushed
  have hclose : sink.perform .close w₂ = (closed, w₃) := hclosed
  rw [runRequests, Sink.performAll_append, hsent, Sink.performAll_cons_of hflush,
    Sink.performAll_cons_of hclose, Sink.performAll_nil]

/-- **The code tells what the sink answered.** -/
theorem sendOutcome_performAll (sink : Sink (StateM S)) (config : Config) (now : Millis)
    (event : Event) (property : Option JobProperty) (endpoint : Endpoint) (w : S) :
    let rs := (runRecords config now event property).all
    let answers := sink.performAll (runRequests rs) w
    let reported := reportRun sink config now event property w
    let closed := sink.close reported.2
    let ended := sendOutcome endpoint reported.1 closed.1
    closed.2 = answers.2 ∧
      ended.output =
        Text.utf8Bytes (sentText (.ofSends rs ((sendable rs).zip answers.1)) endpoint) ∧
      ended.code = if answers.1.all BuildMetrics.Outcome.isOk then 0 else 3 := by
  obtain ⟨htotals, hflush, hworld⟩ := reportRun_performAll sink config now event property w
  generalize reportRun sink config now event property w = reported at htotals hflush hworld ⊢
  obtain ⟨report, w'⟩ := reported
  generalize (runRecords config now event property).all = rs at htotals hflush hworld ⊢
  have hlength : (sendable rs).length = (sink.performAll (sendRequests rs) w).1.length := by
    rw [Sink.length_performAll, sendRequests, SinkRequest.sends, List.length_map]
  rcases hsent : sink.performAll (sendRequests rs) w with ⟨sent, w₁⟩
  rcases hflushed : sink.flush w₁ with ⟨flushed, w₂⟩
  rcases hclosed : sink.close w₂ with ⟨closed, w₃⟩
  rw [hsent] at htotals hflush hworld hlength
  rw [hflushed] at hflush hworld
  dsimp only at htotals hflush hworld hlength ⊢
  -- the last two answers are not for records
  have hzip : (sendable rs).zip (sent ++ [flushed, closed]) = (sendable rs).zip sent := by
    rw [← List.append_nil (sendable rs), List.zip_append hlength]
    simp
  have hall : (sent ++ [flushed, closed]).all BuildMetrics.Outcome.isOk = true ↔
      report.flushError = none ∧ closed = .ok () ∧ report.totals.failed = 0 := by
    rw [hflush, htotals, message?_eq_none, Emission.failed_ofSends_eq_zero_iff hlength,
      List.all_append, Bool.and_eq_true, ← BuildMetrics.Outcome.isOk_iff,
      ← BuildMetrics.Outcome.isOk_iff]
    simp [and_comm, and_assoc]
  rw [performAll_runRequests hsent hflushed hclosed, hworld, hclosed, hzip, ← htotals]
  refine ⟨rfl, by rw [sendOutcome], ?_⟩
  rw [code_sendOutcome]
  simp only [hall]

/-- The files of a run hold what they should, and there is a proxy to send to. -/
structure Prepares (contents : String → Except String (List UInt8)) (files : RunFiles)
    (event : String) (property : Option String) (hostname : Option String) (port : Option UInt32)
    (i : Inputs) (config : Config) (endpoint : Endpoint) : Prop where
  /-- what the files hold -/
  loads : Loads contents files event property i
  /-- the configuration with the host and the port that were given -/
  normalized : (override i.config hostname port).normalized = .ok config
  /-- the proxy -/
  endpoint : config.endpoint? = some endpoint

/-- There is somewhere to send to if the configuration with another host and port has a normal form
with an endpoint. -/
theorem target_eq_ok_iff {c config : Config} {endpoint : Endpoint} {hostname : Option String}
    {port : Option UInt32} :
    target c hostname port = .ok (config, endpoint) ↔
      (override c hostname port).normalized = .ok config ∧ config.endpoint? = some endpoint := by
  rw [target]
  cases (override c hostname port).normalized with
  | error e => simp [throw, throwThe, MonadExceptOf.throw]
  | ok c =>
    cases hendpoint : c.endpoint? with
    | none =>
      simp only [hendpoint, throw, throwThe, MonadExceptOf.throw, Except.ok.injEq]
      refine ⟨fun h => (by cases h), ?_⟩
      rintro ⟨rfl, h⟩
      cases hendpoint.symm.trans h
    | some endpoint =>
      simp only [hendpoint, pure, Except.pure, Except.ok.injEq, Prod.mk.injEq]
      refine ⟨?_, ?_⟩
      · rintro ⟨rfl, rfl⟩
        exact ⟨rfl, hendpoint⟩
      · rintro ⟨rfl, h⟩
        exact ⟨rfl, Option.some.inj (hendpoint.symm.trans h)⟩

/-- What the files hold is one set of inputs. -/
theorem Loads.unique {i' : Inputs} (h : Loads contents files event property i)
    (h' : Loads contents files event property i') : i = i' := by
  obtain ⟨config, event, property⟩ := i
  obtain ⟨config', event', property'⟩ := i'
  obtain rfl : config = config' := Except.ok.inj (h.config.symm.trans h'.config)
  obtain rfl := Except.ok.inj (h.event.symm.trans h'.event)
  obtain rfl := Except.ok.inj (h.property.symm.trans h'.property)
  rfl

/-- **The code of sending.** If the files do not hold what they should or there is no proxy to send
to, it is 1 and nothing was done. Otherwise it is 0 if every record that is not too long was taken
and then delivered, and 3 if not. -/
theorem runSend_code (htexts : AreTexts contents files event property)
    (network : Network (StateM S)) (now : Millis) (hostname : Option String) (port : Option UInt32)
    (w : S) :
    let ended := runSend (.ofFiles contents network now) files hostname port w
    ((¬ ∃ i config endpoint,
        Prepares contents files event property hostname port i config endpoint) →
      ended.1.code = 1 ∧ ended.2 = w) ∧
    ∀ i config endpoint, Prepares contents files event property hostname port i config endpoint →
      let rs := (runRecords config now i.event i.property).all
      let answers := (ProxySink.sink network).joined.performAll (runRequests rs)
        (.ofEndpoint endpoint, w)
      ended.2 = answers.2.2 ∧
        ended.1.output =
          Text.utf8Bytes (sentText (.ofSends rs ((sendable rs).zip answers.1)) endpoint) ∧
        ended.1.code = if answers.1.all BuildMetrics.Outcome.isOk then 0 else 3 := by
  rcases @readInputs_cases contents files event property S network now w htexts with
    ⟨i, hloads, hread⟩ | ⟨hnone, f, hcode, hread⟩
  · refine ⟨fun hnone => ?_, fun i' config endpoint h => ?_⟩
    · cases htarget : target i.config hostname port with
      | error f =>
        rw [runSend_of_target_error hread htarget]
        exact ⟨code_of_target htarget, rfl⟩
      | ok prepared =>
        obtain ⟨hnormalized, hendpoint⟩ := target_eq_ok_iff.mp htarget
        exact absurd ⟨i, prepared.1, prepared.2, hloads, hnormalized, hendpoint⟩ hnone
    · obtain rfl := hloads.unique h.loads
      have htarget := target_eq_ok_iff.mpr ⟨h.normalized, h.endpoint⟩
      obtain ⟨hworld, houtput, hcode⟩ := sendOutcome_performAll (ProxySink.sink network).joined
        config now i.event i.property endpoint (ProxySink.ofEndpoint endpoint, w)
      rw [runSend_of_target hread htarget]
      dsimp only [Host.ofFiles]
      refine ⟨?_, houtput, hcode⟩
      rw [hworld]
  · rw [runSend_of_error hread]
    exact ⟨fun _ => ⟨hcode, rfl⟩, fun i config endpoint h => absurd ⟨i, h.loads⟩ hnone⟩

end

/-! ## What arrives -/

/-- The records of a run are one session. -/
theorem groups_sendRequests (rs : List Record) :
    SinkRequest.groups (sendRequests rs ++ [SinkRequest.flush]) =
      if (sendable rs).isEmpty then [] else [sendable rs] := by
  have hopen : ∀ request ∈ sendRequests rs ++ [SinkRequest.flush], request.isClose = false := by
    intro request hrequest
    rcases List.mem_append.mp hrequest with hsend | hflush
    · exact SinkRequest.isClose_of_mem_sends hsend
    · rw [List.mem_singleton.mp hflush]
      rfl
  have hrecords : SinkRequest.records (sendRequests rs ++ [SinkRequest.flush]) = sendable rs := by
    rw [SinkRequest.records_append, sendRequests, SinkRequest.records_sends]
    exact List.append_nil _
  rw [SinkRequest.groups, SinkRequest.sessions, List.splitOnP_eq_singleton hopen,
    List.map_singleton, hrecords, List.filter_singleton]
  cases (sendable rs).isEmpty <;> rfl

/-- **If the code is 0, the lines of all records that are not too long have arrived**, over one
connection. -/
theorem opened_of_runSend {files : RunFiles} {i : Inputs} {refusal : Nat → Option String}
    {host : Host (StateM Wires)} (hnetwork : host.network = .wired refusal)
    {hostname : Option String} {port : Option UInt32} {config : Config} {endpoint : Endpoint}
    (hendpoint : endpoint.isConfigured = true)
    (hread : (readInputs host files).run Wires.empty = (.ok i, .empty))
    (htarget : target i.config hostname port = .ok (config, endpoint))
    (hcode : (runSend host files hostname port Wires.empty).1.code = 0) :
    let rs := sendable (runRecords config host.now i.event i.property).all
    (runSend host files hostname port Wires.empty).2.opened =
      if rs.isEmpty then [] else [⟨endpoint, Record.frames rs, false⟩] := by
  obtain ⟨hworld, -, hanswers⟩ := sendOutcome_performAll (ProxySink.sink host.network).joined config
    host.now i.event i.property endpoint (ProxySink.ofEndpoint endpoint, .empty)
  rw [runSend_of_target hread htarget] at hcode ⊢
  rw [hcode] at hanswers
  dsimp only
  rw [hworld]
  generalize (runRecords config host.now i.event i.property).all = rs at hanswers ⊢
  have hrequests : runRequests rs =
      (sendRequests rs ++ [SinkRequest.flush]) ++ [SinkRequest.close] := by
    rw [List.append_assoc]
    rfl
  rw [hnetwork, ProxySink.performAll_eq_dialog, hrequests] at hanswers ⊢
  have hall := (ite_eq_left_iff.mp hanswers.symm).mt (by decide)
  rw [ProxySink.opened_of_all_isOk hendpoint (not_not.mp hall), groups_sendRequests]
  cases (sendable rs).isEmpty <;> rfl

/-! ## Runs of which nothing is sent -/

/-- The record of a run is too long if the segment of its job is. -/
theorem isTooLong_jobRecord {ctx : RunContext}
    (h : Record.nameLimit ≤ (Name.job ctx.run.jobFullName).length) :
    (jobRecord ctx).isTooLong = true := by
  have hname : (Name.job ctx.run.jobFullName).length ≤ (jobRecord ctx).name.length := by
    show _ ≤ (ctx.template.metricName (Name.job ctx.run.jobFullName)).length
    rw [Template.metricName]
    split
    · exact Nat.le_refl _
    · rw [String.length_append]
      exact Nat.le_add_left _ _
  exact decide_eq_true (Nat.le_trans h hname)

/-- A run of which only the job is measured. -/
def plainRun (jobFullName : String) : Event :=
  ⟨⟨jobFullName, "1", 5, .success, []⟩, none, none, none⟩

/-- A run of which nothing else is known has one record. -/
theorem all_plainRun (config : Config) (now : Millis) (jobFullName : String) :
    (runRecords config now (plainRun jobFullName) none).all =
      [jobRecord ⟨(plainRun jobFullName).run, .ofConfig config now, config, none⟩] :=
  rfl

/-- Such a run is read back from its text. -/
theorem decode_plainRun (jobFullName : String) :
    Event.codec.decode (Event.codec.encode (plainRun jobFullName)) =
      .ok (plainRun jobFullName) := by
  have hduration : Json.Fits (fun _ => False) (Json.Codec.int64.write 5) :=
    .integer (by decide) (by decide)
  refine Json.Codec.readsBack_of_no_floats (Run.Event.rereads _) ?_
  exact .member (.string _) <| .member (.string _) <| .member hduration <| .member (.string _) <|
    .member (.array nofun) <| .object nofun

/-- A name of as many letters as a name must not have. -/
def longName : String := String.ofList (List.replicate Record.nameLimit 'x')

theorem job_longName : Name.job longName = longName := by
  have hchars : ∀ c ∈ longName.toList, Name.isCategoryChar c = true := by
    intro c hc
    rw [longName, String.toList_ofList] at hc
    rw [List.eq_of_mem_replicate hc]
    decide
  have hne : longName ≠ "" := Name.ofList_ne_empty (List.cons_ne_nil _ _)
  rw [Name.job, Name.decodeForm_of_keeps Name.isAlphabet_category hchars, Name.category,
    Name.clean_eq_self Name.isAlphabet_category hne hchars]

/-- The files of such a run: the configuration is the usual one, and the job asks for nothing. -/
def plainFiles (jobFullName : String) : String → Except String (List UInt8) := fun _ =>
  .ok (Text.utf8Bytes (Event.codec.encode (plainRun jobFullName)))

/-- The usual configuration with a proxy. -/
def localConfig : Config := override .default (some "127.0.0.1") none

/-- The file of such a run holds its text, and no other file is named. -/
theorem areTexts_plainFiles (jobFullName : String) :
    AreTexts (plainFiles jobFullName) ⟨"event.json", none, none⟩
      (Event.codec.encode (plainRun jobFullName)) none where
  event := by rw [plainFiles]
  property := by rw [Option.map_none, Option.map_none]

theorem localConfig_normalized : localConfig.normalized = .ok localConfig.cleaned :=
  Config.normalized_eq_ok_iff.mpr ⟨by decide, rfl⟩

/-- The file of such a run can be read, and there is somewhere to send to. -/
theorem prepares_plainFiles (jobFullName : String) :
    Prepares (plainFiles jobFullName) ⟨"event.json", none, none⟩
      (Event.codec.encode (plainRun jobFullName)) none (some "127.0.0.1") none
      ⟨.default, plainRun jobFullName, none⟩ localConfig.cleaned ⟨"127.0.0.1", 2878⟩ where
  loads := ⟨rfl, decode_plainRun jobFullName, rfl⟩
  normalized := localConfig_normalized
  endpoint := by decide

/-- Nobody listens, so the record of the job is refused. -/
theorem runSend_code_refused :
    AreTexts (plainFiles "nightly") ⟨"event.json", none, none⟩
      (Event.codec.encode (plainRun "nightly")) none ∧
    let host : Host (StateM Unit) := .ofFiles (plainFiles "nightly") .refusing 0
    (runSend host ⟨"event.json", none, none⟩ (some "127.0.0.1") none ()).1.code = 3 := by
  have htexts := areTexts_plainFiles "nightly"
  obtain ⟨-, hsends⟩ := runSend_code htexts (Network.refusing : Network (StateM Unit)) 0
    (some "127.0.0.1") none ()
  obtain ⟨-, -, hcode⟩ := hsends _ _ _ (prepares_plainFiles "nightly")
  have hshort : (jobRecord ⟨(plainRun "nightly").run, .ofConfig localConfig.cleaned 0,
      localConfig.cleaned, none⟩).isTooLong = false := by decide +kernel
  have hrequests : runRequests (runRecords localConfig.cleaned 0 (plainRun "nightly") none).all =
      .send (jobRecord ⟨(plainRun "nightly").run, .ofConfig localConfig.cleaned 0,
        localConfig.cleaned, none⟩) :: [.flush, .close] := by
    rw [all_plainRun, runRequests, sendRequests, sendable_cons hshort]
    rfl
  have hanswers : ∀ r requests, ((ProxySink.sink Network.refusing).joined.performAll
      (.send r :: requests) (ProxySink.ofEndpoint ⟨"127.0.0.1", 2878⟩, ())).1.all
        BuildMetrics.Outcome.isOk = false := by
    intro r requests
    rw [Sink.performAll_cons]
    rfl
  refine ⟨htexts, hcode.trans (if_neg ?_)⟩
  rw [Bool.not_eq_true]
  exact (congrArg (fun requests => ((ProxySink.sink Network.refusing).joined.performAll requests
    (ProxySink.ofEndpoint ⟨"127.0.0.1", 2878⟩, ())).1.all BuildMetrics.Outcome.isOk)
      hrequests).trans (hanswers _ _)

section

variable {S : Type} {w : S} {host : Host (StateM S)} {hostname : Option String}
  {port : Option UInt32} {config : Config} {endpoint : Endpoint}

/-- **If every record is too long, the code is 0 although nothing was sent.** -/
theorem runSend_of_all_dropped (h : (readInputs host files).run w = (.ok i, w))
    (htarget : target i.config hostname port = .ok (config, endpoint))
    (hdropped : sendable (runRecords config host.now i.event i.property).all = []) :
    (runSend host files hostname port w).1.code = 0 ∧
      (runSend host files hostname port w).1.output =
        Text.utf8Bytes (sentText
          (.ofSends (runRecords config host.now i.event i.property).all []) endpoint) ∧
      (runSend host files hostname port w).2 = w := by
  obtain ⟨hworld, houtput, hcode⟩ := sendOutcome_performAll (ProxySink.sink host.network).joined
    config host.now i.event i.property endpoint (ProxySink.ofEndpoint endpoint, w)
  have hanswers : (ProxySink.sink host.network).joined.performAll
      (runRequests (runRecords config host.now i.event i.property).all)
      (ProxySink.ofEndpoint endpoint, w) = ([.ok (), .ok ()], .ofEndpoint endpoint, w) := by
    rw [runRequests, sendRequests, hdropped]
    rfl
  rw [hanswers] at hworld houtput hcode
  rw [hdropped] at houtput
  rw [runSend_of_target h htarget]
  dsimp only
  refine ⟨hcode, houtput, ?_⟩
  rw [hworld]

end

/-- Reading that file gives the run and the default configuration. -/
theorem readInputs_plainFiles {S : Type} {network : Network (StateM S)} {now : Millis} {w : S}
    (jobFullName : String) :
    (readInputs (.ofFiles (plainFiles jobFullName) network now) ⟨"event.json", none, none⟩).run w =
      (.ok ⟨.default, plainRun jobFullName, none⟩, w) := by
  have hloads := (prepares_plainFiles jobFullName).loads
  rcases @readInputs_cases _ _ _ _ S network now w (areTexts_plainFiles jobFullName) with
    ⟨i, hi, hread⟩ | ⟨hnone, -⟩
  · rw [hread, hi.unique hloads]
  · exact absurd ⟨_, hloads⟩ hnone

/-- The name of the job is too long, so nothing is sent, and yet the code is 0. -/
theorem runSend_dropped :
    let host : Host (StateM Unit) := .ofFiles (plainFiles longName) .refusing 0
    let ended := runSend host ⟨"event.json", none, none⟩ (some "127.0.0.1") none ()
    ended.1.code = 0 ∧
      ended.1.output = Text.utf8Bytes (sentText ⟨0, 1, 0⟩ ⟨"127.0.0.1", 2878⟩) := by
  have hprepares := prepares_plainFiles longName
  have htarget := target_eq_ok_iff.mpr ⟨hprepares.normalized, hprepares.endpoint⟩
  have hlong : (jobRecord ⟨(plainRun longName).run, .ofConfig localConfig.cleaned 0,
      localConfig.cleaned, none⟩).isTooLong = true := by
    refine isTooLong_jobRecord ?_
    show Record.nameLimit ≤ (Name.job longName).length
    rw [job_longName, longName, String.length_ofList, List.length_replicate]
  have hrecords := all_plainRun localConfig.cleaned 0 longName
  have hdropped :
      sendable (runRecords localConfig.cleaned 0 (plainRun longName) none).all = [] := by
    rw [hrecords, sendable_cons_of_isTooLong hlong]
    rfl
  have hcounts : Emission.ofSends (runRecords localConfig.cleaned 0 (plainRun longName) none).all []
      = ⟨0, 1, 0⟩ := by
    rw [hrecords, Emission.ofSends_cons_of_isTooLong hlong]
    rfl
  have hread := @readInputs_plainFiles Unit .refusing 0 () longName
  obtain ⟨hcode, houtput, -⟩ := runSend_of_all_dropped hread htarget hdropped
  exact ⟨hcode, houtput.trans
    (congrArg (fun e => Text.utf8Bytes (sentText e ⟨"127.0.0.1", 2878⟩)) hcounts)⟩

end BuildMetrics.Command
