import BuildMetrics.Proofs.Config
import BuildMetrics.Proofs.Report.Delivery
import BuildMetrics.Proofs.Sink.Ledger
import BuildMetrics.Service

/-!
# The sinks of a service

A service is asked to report runs and steps and to change its configuration, in any order, and the
factory and its sinks answer as they like. The ledger of the factory tells which sinks were opened
and what was asked of them.

* `Follows` is the invariant: all sinks but the one that the service holds are closed, and that one
  was opened last, for the endpoint in force, and used in rounds;
* `Follows.perform`: a request keeps it;
* `Follows.serve`: so do any number of them;
* `serve_lifecycle`: what it says of the ledger.
-/

namespace BuildMetrics

open Run (Event StepEvent)

variable {σ α : Type}

namespace Service

/-! ## Requests -/

/-- What a service can be asked. -/
inductive Request where
  /-- to report a run that is over -/
  | run (now : Millis) (event : Event) (property : Option JobProperty)
  /-- to report a timed step -/
  | step (now : Millis) (event : StepEvent)
  /-- to put a configuration in force -/
  | update (config : Config)

/-- What a service answers. -/
inductive Answer where
  /-- what became of a run -/
  | run (report : Except SinkError (Option RunReport))
  /-- what became of a step -/
  | step (emission : Except SinkError (Option Emission))
  /-- the configuration that is now in force -/
  | update (config : Except ConfigError Config)

/-- What came of a report: an error, or whether anything was reported. -/
def Answer.outcome? : Answer → Option (Except SinkError Bool)
  | run report => some (report.map Option.isSome)
  | step emission => some (emission.map Option.isSome)
  | update _ => none

section

variable {m : Type → Type} [Monad m]

/-- Does what is requested. -/
def perform (factory : SinkFactory m) : Request → StateT (Service m) m Answer
  | .run now event property => .run <$> reportRun factory now event property
  | .step now event => .step <$> reportStep factory now event
  | .update config => .update <$> update config

/-- Does what is requested, one request after the other. -/
def serve (factory : SinkFactory m) : List Request → StateT (Service m) m (List Answer)
  | [] => return []
  | request :: requests => do
    let answer ← perform factory request
    let answers ← serve factory requests
    return answer :: answers

end

/-! ## One call of the service -/

section

variable {S : Type} {factory : SinkFactory (StateM S)}
  {action : Config → Sink (StateM S) → StateM S α} {given config : Config}
  {sink : Sink (StateM S)} {held : Option (Sink (StateM S))} {endpoint : Endpoint} {e : SinkError}
  {w w' : S}

theorem map_apply {β : Type} (f : α → β) (x : StateT (Service (StateM S)) (StateM S) α)
    (service : Service (StateM S)) (w : S) :
    (f <$> x) service w = ((f (x service w).1.1, (x service w).1.2), (x service w).2) :=
  rfl

/-- Where there is no proxy, nothing is done. -/
theorem withSink_of_not_isConfigured (h : config.isConfigured = false) :
    withSink factory action ⟨config, held⟩ w = ((.ok none, ⟨config, held⟩), w) := by
  have hrun : (withSink factory action).run ⟨config, held⟩ = pure (.ok none, ⟨config, held⟩) := by
    simp [withSink, h]
  exact congrFun hrun w

/-- With a proxy, what is done with the sink follows the attempt to open it. -/
theorem withSink_of_isConfigured (h : config.isConfigured = true) :
    withSink factory action ⟨config, held⟩ w =
      match openSink factory ⟨config, held⟩ w with
      | ((.error e, service), w) => ((.error e, service), w)
      | ((.ok sink, service), w) =>
        ((.ok (some (action config sink w).1), service), (action config sink w).2) := by
  have hrun : (withSink factory action).run ⟨config, held⟩ = (do
      let (answer, service) ← (openSink factory).run ⟨config, held⟩
      match answer with
      | .error e => return (.error e, service)
      | .ok sink => return (.ok (some (← action config sink)), service)) := by
    simp only [withSink, StateT.run_bind, StateT.run_get, pure_bind, h, Bool.not_true,
      Bool.false_eq_true, if_false]
    refine bind_congr fun (answer, service) => ?_
    cases answer with
    | error e => rfl
    | ok sink => simp
  refine (congrFun hrun w).trans ?_
  simp only [bind, StateT.bind, StateT.run]
  rcases openSink factory ⟨config, held⟩ w with ⟨⟨answer, service⟩, w'⟩
  cases answer with
  | error e => rfl
  | ok sink => rfl

/-- A sink that is open is used. -/
theorem withSink_of_open (h : config.isConfigured = true) :
    withSink factory action ⟨config, some sink⟩ w =
      ((.ok (some (action config sink w).1), ⟨config, some sink⟩), (action config sink w).2) :=
  withSink_of_isConfigured h

/-- Where no sink can be opened, nothing is done, and the error is answered. -/
theorem withSink_of_refused (h : config.endpoint? = some endpoint)
    (hopen : factory endpoint w = (.error e, w')) :
    withSink factory action ⟨config, none⟩ w = ((.error e, ⟨config, none⟩), w') := by
  have hrefused : openSink factory ⟨config, none⟩ w = ((.error e, ⟨config, none⟩), w') := by
    simp only [openSink, bind, StateT.bind, h, hopen]
    rfl
  rw [withSink_of_isConfigured (Config.isConfigured_of_endpoint? h), hrefused]

/-- A sink that was opened is used and stays open. -/
theorem withSink_of_opened (h : config.endpoint? = some endpoint)
    (hopen : factory endpoint w = (.ok sink, w')) :
    withSink factory action ⟨config, none⟩ w =
      ((.ok (some (action config sink w').1), ⟨config, some sink⟩), (action config sink w').2) := by
  have hopened : openSink factory ⟨config, none⟩ w = ((.ok sink, ⟨config, some sink⟩), w') := by
    simp only [openSink, bind, StateT.bind, h, hopen]
    rfl
  rw [withSink_of_isConfigured (Config.isConfigured_of_endpoint? h), hopened]

/-- A configuration without a normal form changes nothing. -/
theorem update_of_error {e : ConfigError} (h : given.normalized = .error e)
    (service : Service (StateM S)) :
    (update given : StateT _ (StateM S) _) service w = ((.error e, service), w) := by
  simp only [update, h]
  rfl

/-- A configuration is put in force in its normal form. -/
theorem update_of_closed (h : given.normalized = .ok config) (old : Config) :
    (update given : StateT _ (StateM S) _) ⟨old, none⟩ w = ((.ok config, ⟨config, none⟩), w) := by
  simp only [update, h]
  rfl

/-- Before another configuration is put in force, the open sink is closed. -/
theorem update_of_open (h : given.normalized = .ok config) (old : Config) :
    (update given : StateT _ (StateM S) _) ⟨old, some sink⟩ w =
      ((.ok config, ⟨config, none⟩), (sink.close w).2) := by
  simp only [update, h]
  rfl

end

/-! ## The invariant -/

/-- A service, and the same service beside a ledger. All sinks are spent but the one that it holds;
that one was opened last, for the endpoint in force, and used in rounds. -/
inductive Follows : Service (StateM σ) → Service (StateM (Ledger × σ)) → Ledger → Prop where
  /-- no sink is open -/
  | closed {given config : Config} (hconfig : given.normalized = .ok config) {ledger : Ledger}
      (hspent : ∀ o ∈ ledger.opened, o.IsSpent) :
      Follows ⟨config, none⟩ ⟨config, none⟩ ledger
  /-- a sink is open -/
  | holding {given config : Config} (hconfig : given.normalized = .ok config)
      {endpoint : Endpoint} (hendpoint : config.endpoint? = some endpoint)
      (refused : List (Endpoint × SinkError)) {earlier : List Opening}
      (hspent : ∀ o ∈ earlier, o.IsSpent) {calls : List SinkCall} (hrounds : Rounds calls)
      (sink : Sink (StateM σ)) :
      Follows ⟨config, some sink⟩ ⟨config, some (sink.logging (Ledger.note earlier.length))⟩
        ⟨refused, earlier ++ [⟨endpoint, calls⟩]⟩

/-- What a request may do to a ledger, by the configuration in force and by what came of it. -/
structure Promise (factory : SinkFactory (StateM σ)) (config : Config) (w : σ)
    (outcome? : Option (Except SinkError Bool)) (before after : Ledger) : Prop where
  /-- without a proxy nothing is opened or called, and no report is made -/
  idle : config.isConfigured = false →
    after = before ∧ ∀ outcome, outcome? = some outcome → outcome = .ok false
  /-- a report fails only if its sink cannot be opened -/
  failed : ∀ e, outcome? = some (.error e) → ∃ endpoint, config.endpoint? = some endpoint ∧
    (factory endpoint w).1 = .error e ∧ after = before.refuse endpoint e

section

variable {factory : SinkFactory (StateM σ)} {config : Config} {w : σ}
  {outcome? : Option (Except SinkError Bool)} {before after : Ledger}

/-- With a proxy only failed reports matter. -/
theorem Promise.of_isConfigured (h : config.isConfigured = true)
    (hfailed : ∀ e, outcome? = some (.error e) → ∃ endpoint, config.endpoint? = some endpoint ∧
      (factory endpoint w).1 = .error e ∧ after = before.refuse endpoint e) :
    Promise factory config w outcome? before after :=
  ⟨fun hidle => absurd (hidle.symm.trans h) (by decide), hfailed⟩

/-- What reports nothing and leaves the ledger as it was keeps the promise. -/
theorem Promise.of_unchanged : Promise factory config w none before before :=
  ⟨fun _ => ⟨rfl, by rintro outcome ⟨⟩⟩, by rintro e ⟨⟩⟩

end

/-- What is done with a sink is one round of calls on it. -/
def MakesRound (plain : Config → Sink (StateM σ) → StateM σ α)
    (logged : Config → Sink (StateM (Ledger × σ)) → StateM (Ledger × σ) α) : Prop :=
  ∀ (note : Note Ledger) (config : Config) (sink : Sink (StateM σ)) (ledger : Ledger) (w : σ),
    ∃ round, IsRound round ∧
      logged config (sink.logging note) (ledger, w) =
        ((plain config sink w).1, note.all round ledger, (plain config sink w).2)

/-- The report of a run is one round of calls. -/
theorem makesRound_reportRun (now : Millis) (event : Event) (property : Option JobProperty) :
    MakesRound (σ := σ) (fun config sink => BuildMetrics.reportRun sink config now event property)
      (fun config sink => BuildMetrics.reportRun sink config now event property) := by
  intro note config sink ledger w
  obtain ⟨ds, flushed, -, -, -, -, hlog⟩ :=
    reportRun_logging note sink config now event property ledger w
  exact ⟨_, ⟨ds.flatMap Delivery.sends, flushed, rfl⟩, hlog⟩

/-- The report of a timed step is one round of calls. -/
theorem makesRound_reportStep (now : Millis) (event : StepEvent) :
    MakesRound (σ := σ)
      (fun config sink => do
        let emission ← BuildMetrics.reportStep sink config now event
        let _ ← sink.flush
        return emission)
      (fun config sink => do
        let emission ← BuildMetrics.reportStep sink config now event
        let _ ← sink.flush
        return emission) := by
  intro note config sink ledger w
  obtain ⟨sends, -, hlog⟩ := reportStep_logging note sink config now event ledger w
  let flushed := (sink.flush (BuildMetrics.reportStep sink config now event w).2).1
  refine ⟨sendCalls sends ++ [.flush flushed], ⟨sends, flushed, rfl⟩, ?_⟩
  rw [Note.all_append]
  simp only [bind, StateT.bind, hlog]
  rfl

/-! ## One request -/

section

variable {service : Service (StateM σ)} {logged : Service (StateM (Ledger × σ))} {ledger : Ledger}

/-- Something that is done with the sink keeps the invariant if it is a round of calls. -/
theorem Follows.withSink {plain : Config → Sink (StateM σ) → StateM σ α}
    {noted : Config → Sink (StateM (Ledger × σ)) → StateM (Ledger × σ) α}
    (h : Follows service logged ledger) (factory : SinkFactory (StateM σ))
    (hround : MakesRound plain noted) (w : σ) :
    let done := Service.withSink factory plain service w
    ∃ (logged' : Service (StateM (Ledger × σ))) (ledger' : Ledger),
      Service.withSink factory.logging noted logged (ledger, w) =
          ((done.1.1, logged'), ledger', done.2) ∧
        Follows done.1.2 logged' ledger' ∧
        Promise factory service.config w (some (done.1.1.map Option.isSome)) ledger ledger' := by
  cases h with
  | @closed given config hconfig ledger hspent =>
    cases hproxy : config.isConfigured with
    | false =>
      rw [withSink_of_not_isConfigured hproxy, withSink_of_not_isConfigured hproxy]
      refine ⟨_, _, rfl, .closed hconfig hspent, fun _ => ⟨rfl, ?_⟩, ?_⟩
      · rintro outcome ⟨⟩
        rfl
      · rintro e ⟨⟩
    | true =>
      obtain ⟨endpoint, hendpoint⟩ := Config.endpoint?_of_isConfigured hconfig hproxy
      rcases hopen : factory endpoint w with ⟨answer, w'⟩
      cases answer with
      | error e =>
        have hlogged : factory.logging endpoint (ledger, w) =
            (.error e, ledger.refuse endpoint e, w') := by
          rw [SinkFactory.logging, hopen]
        rw [withSink_of_refused hendpoint hopen, withSink_of_refused hendpoint hlogged]
        refine ⟨_, _, rfl, .closed hconfig hspent, .of_isConfigured hproxy ?_⟩
        rintro e' ⟨⟩
        exact ⟨endpoint, hendpoint, by rw [hopen], rfl⟩
      | ok sink =>
        have hlogged : factory.logging endpoint (ledger, w) =
            (.ok (sink.logging (Ledger.note ledger.opened.length)), ledger.enter endpoint, w') := by
          rw [SinkFactory.logging, hopen]
        -- the new sink is the last one in the ledger, so its calls are noted there
        obtain ⟨round, hisRound, hcalls⟩ := hround (Ledger.note ledger.opened.length) config sink
          (ledger.enter endpoint) w'
        rw [withSink_of_opened hendpoint hopen, withSink_of_opened hendpoint hlogged, hcalls,
          Ledger.enter, Ledger.note_all]
        exact ⟨_, _, rfl, .holding hconfig hendpoint _ hspent (.append .nil hisRound) _,
          .of_isConfigured hproxy (by rintro e ⟨⟩)⟩
  | @holding given config hconfig endpoint hendpoint refused earlier hspent calls hrounds sink =>
    have hproxy := Config.isConfigured_of_endpoint? hendpoint
    obtain ⟨round, hisRound, hcalls⟩ := hround (Ledger.note earlier.length) config sink
      ⟨refused, earlier ++ [⟨endpoint, calls⟩]⟩ w
    rw [withSink_of_open hproxy, withSink_of_open hproxy, hcalls, Ledger.note_all]
    exact ⟨_, _, rfl, .holding hconfig hendpoint _ hspent (.append hrounds hisRound) _,
      .of_isConfigured hproxy (by rintro e ⟨⟩)⟩

/-- A new configuration keeps the invariant: it closes the sink. -/
theorem Follows.update (h : Follows service logged ledger) (factory : SinkFactory (StateM σ))
    (given : Config) (w : σ) :
    let done := (Service.update given : StateT _ (StateM σ) _) service w
    ∃ (logged' : Service (StateM (Ledger × σ))) (ledger' : Ledger),
      (Service.update given : StateT _ (StateM (Ledger × σ)) _) logged (ledger, w) =
          ((done.1.1, logged'), ledger', done.2) ∧
        Follows done.1.2 logged' ledger' ∧
        Promise factory service.config w none ledger ledger' := by
  cases hgiven : given.normalized with
  -- a configuration without a normal form closes nothing
  | error e =>
    rw [update_of_error hgiven, update_of_error hgiven]
    exact ⟨_, _, rfl, h, .of_unchanged⟩
  | ok config =>
    cases h with
    | closed hconfig hspent =>
      rw [update_of_closed hgiven, update_of_closed hgiven]
      exact ⟨_, _, rfl, .closed hgiven hspent, .of_unchanged⟩
    | @holding _ old _ endpoint hendpoint refused earlier hspent calls hrounds sink =>
      let closed := (sink.close w).1
      let ledger' : Ledger := ⟨refused, earlier ++ [⟨endpoint, calls ++ [.close closed]⟩]⟩
      have hclose : (sink.logging (Ledger.note earlier.length)).close
          (⟨refused, earlier ++ [⟨endpoint, calls⟩]⟩, w) = (closed, ledger', (sink.close w).2) := by
        have hnote := Ledger.note_all refused earlier endpoint calls [.close closed]
        exact congrArg (fun ledger => (closed, ledger, (sink.close w).2)) hnote
      rw [update_of_open hgiven, update_of_open hgiven, hclose]
      have hlast : (⟨endpoint, calls ++ [.close closed]⟩ : Opening).IsSpent :=
        ⟨calls, hrounds, closed, rfl⟩
      have hall : ∀ o ∈ ledger'.opened, o.IsSpent :=
        List.forall_mem_append.mpr ⟨hspent, List.forall_mem_singleton.mpr hlast⟩
      exact ⟨_, ledger', rfl, .closed hgiven hall,
        .of_isConfigured (Config.isConfigured_of_endpoint? hendpoint) (by rintro e ⟨⟩)⟩

/-- **A request keeps the invariant.** -/
theorem Follows.perform (h : Follows service logged ledger) (factory : SinkFactory (StateM σ))
    (request : Request) (w : σ) :
    let done := Service.perform factory request service w
    ∃ (logged' : Service (StateM (Ledger × σ))) (ledger' : Ledger),
      Service.perform factory.logging request logged (ledger, w) =
          ((done.1.1, logged'), ledger', done.2) ∧
        Follows done.1.2 logged' ledger' ∧
        Promise factory service.config w done.1.1.outcome? ledger ledger' := by
  cases request with
  | run now event property =>
    obtain ⟨logged', ledger', hdone, hfollows, hpromise⟩ :=
      h.withSink factory (makesRound_reportRun now event property) w
    simp only [Service.perform, Service.reportRun, map_apply]
    exact ⟨logged', ledger', by rw [hdone], hfollows, hpromise⟩
  | step now event =>
    obtain ⟨logged', ledger', hdone, hfollows, hpromise⟩ :=
      h.withSink factory (makesRound_reportStep now event) w
    simp only [Service.perform, Service.reportStep, map_apply]
    exact ⟨logged', ledger', by rw [hdone], hfollows, hpromise⟩
  | update given =>
    obtain ⟨logged', ledger', hdone, hfollows, hpromise⟩ := h.update factory given w
    simp only [Service.perform, map_apply]
    exact ⟨logged', ledger', by rw [hdone], hfollows, hpromise⟩

/-! ## Any number of requests -/

/-- **Requests keep the invariant.** -/
theorem Follows.serve (h : Follows service logged ledger) (factory : SinkFactory (StateM σ))
    (requests : List Request) (w : σ) :
    let done := Service.serve factory requests service w
    ∃ (logged' : Service (StateM (Ledger × σ))) (ledger' : Ledger),
      Service.serve factory.logging requests logged (ledger, w) =
          ((done.1.1, logged'), ledger', done.2) ∧
        Follows done.1.2 logged' ledger' := by
  induction requests generalizing service logged ledger w with
  | nil => exact ⟨logged, ledger, rfl, h⟩
  | cons request requests ih =>
    obtain ⟨logged', ledger', hfirst, hfollows, -⟩ := h.perform factory request w
    obtain ⟨logged'', ledger'', hrest, hfollows'⟩ :=
      ih hfollows (Service.perform factory request service w).2
    refine ⟨logged'', ledger'', ?_, hfollows'⟩
    have hcons {S : Type} (factory : SinkFactory (StateM S)) (service : Service (StateM S))
        (w : S) :
        Service.serve factory (request :: requests) service w =
          let first := Service.perform factory request service w
          let rest := Service.serve factory requests first.1.2 first.2
          ((first.1.1 :: rest.1.1, rest.1.2), rest.2) := rfl
    rw [hcons, hcons, hfirst]
    exact congrArg (fun rest => ((_ :: rest.1.1, rest.1.2), rest.2)) hrest

/-- One sink at most is open, and it is the one that the service holds. -/
theorem Follows.countP_isOpen (h : Follows service logged ledger) :
    ledger.opened.countP Opening.isOpen = if service.isOpen then 1 else 0 := by
  have hnone {openings : List Opening} (hspent : ∀ o ∈ openings, o.IsSpent) :
      openings.countP Opening.isOpen = 0 :=
    List.countP_eq_zero.mpr fun o ho => by simp [(hspent o ho).not_isOpen]
  cases h with
  | closed hconfig hspent => exact hnone hspent
  | holding hconfig hendpoint refused hspent hrounds sink =>
    rw [List.countP_append, hnone hspent, List.countP_singleton, Opening.isOpen_of_rounds hrounds]
    rfl

/-- The open sink is one for the endpoint of the configuration in force. -/
theorem Follows.endpoint?_of_isOpen (h : Follows service logged ledger) {o : Opening}
    (ho : o ∈ ledger.opened) (hopen : o.isOpen = true) :
    service.config.endpoint? = some o.endpoint := by
  cases h with
  | closed hconfig hspent => exact absurd ((hspent o ho).not_isOpen.symm.trans hopen) (by decide)
  | holding hconfig hendpoint refused hspent hrounds sink =>
    rcases List.mem_append.mp ho with hearlier | hlast
    · exact absurd ((hspent o hearlier).not_isOpen.symm.trans hopen) (by decide)
    · obtain rfl := List.mem_singleton.mp hlast
      exact hendpoint

/-- Whatever was opened has been used as it should be. -/
theorem Follows.wellUsed (h : Follows service logged ledger) {o : Opening}
    (ho : o ∈ ledger.opened) : o.WellUsed := by
  cases h with
  | closed hconfig hspent => exact (hspent o ho).wellUsed
  | holding hconfig hendpoint refused hspent hrounds sink =>
    rcases List.mem_append.mp ho with hearlier | hlast
    · exact (hspent o hearlier).wellUsed
    · obtain rfl := List.mem_singleton.mp hlast
      exact Opening.wellUsed_of_rounds hrounds

end

/-- **The sinks of a service.** Whatever it was asked so far, and however the factory and its sinks
answered, at most one sink is not closed; the service holds one exactly then, and it is for the
endpoint in force. Each sink was used in rounds, and for nothing after it was closed. Of what comes
next, nothing is opened or called without a proxy, and a report fails only if its sink cannot be
opened. That the calls are noted in a ledger changes nothing. -/
theorem serve_lifecycle {given config : Config} (h : given.normalized = .ok config)
    (factory : SinkFactory (StateM σ)) (requests : List Request) (w : σ) :
    let done := serve factory requests (ofConfig config) w
    ∃ (logged : Service (StateM (Ledger × σ))) (ledger : Ledger),
      serve factory.logging requests (ofConfig config) (.empty, w) =
          ((done.1.1, logged), ledger, done.2) ∧
        ledger.opened.countP Opening.isOpen = (if done.1.2.isOpen then 1 else 0) ∧
        (∀ o ∈ ledger.opened, o.isOpen = true →
          done.1.2.config.endpoint? = some o.endpoint) ∧
        (∀ o ∈ ledger.opened, o.WellUsed) ∧
        ∀ request : Request,
          let next := perform factory request done.1.2 done.2
          ∃ (logged' : Service (StateM (Ledger × σ))) (ledger' : Ledger),
            perform factory.logging request logged (ledger, done.2) =
                ((next.1.1, logged'), ledger', next.2) ∧
              Promise factory done.1.2.config done.2 next.1.1.outcome? ledger ledger' := by
  have hfirst : Follows (σ := σ) (ofConfig config) (ofConfig config) .empty :=
    .closed h (by rintro o ⟨⟩)
  obtain ⟨logged, ledger, hdone, hfollows⟩ := hfirst.serve factory requests w
  refine ⟨logged, ledger, hdone, hfollows.countP_isOpen, ?_, ?_, ?_⟩
  · exact fun o ho hopen => hfollows.endpoint?_of_isOpen ho hopen
  · exact fun o ho => hfollows.wellUsed ho
  · intro request
    obtain ⟨logged', ledger', hnext, -, hpromise⟩ :=
      hfollows.perform factory request (serve factory requests (ofConfig config) w).2
    exact ⟨logged', ledger', hnext, hpromise⟩

/-- A configuration with a proxy. -/
def proxied : Config := { Config.default with proxyHostname := "proxy" }

/-- A step is reported, the proxy is moved, and a step is reported again. -/
def movingRequests : List Request :=
  [.step 1 ⟨"build", "7", "compile", 0, 1⟩, .update { proxied with proxyPort := 2879 },
    .step 3 ⟨"build", "7", "link", 2, 3⟩]

/-- A proxy that is moved between two reports. -/
theorem serve_lifecycle_moving :
    proxied.normalized = .ok proxied.cleaned ∧
    let ledger := (serve MemorySink.factory.logging movingRequests (ofConfig proxied.cleaned)
      (.empty, MemorySink.empty)).2.1
    ledger.opened.map Opening.endpoint = [⟨"proxy", 2878⟩, ⟨"proxy", 2879⟩] ∧
      ledger.opened.countP Opening.isOpen = 1 ∧ ∀ o ∈ ledger.opened, o.WellUsed := by
  have hconfig : proxied.normalized = .ok proxied.cleaned :=
    Config.normalized_eq_ok_iff.mpr ⟨by decide, rfl⟩
  obtain ⟨logged, ledger, hdone, hopen, -, hused, -⟩ :=
    serve_lifecycle hconfig MemorySink.factory movingRequests MemorySink.empty
  have hopened : (serve MemorySink.factory.logging movingRequests (ofConfig proxied.cleaned)
      (.empty, MemorySink.empty)).2.1.opened.map Opening.endpoint =
        [⟨"proxy", 2878⟩, ⟨"proxy", 2879⟩] := by decide
  rw [hdone] at hopened ⊢
  exact ⟨hconfig, hopened, hopen, hused⟩

end Service

end BuildMetrics
