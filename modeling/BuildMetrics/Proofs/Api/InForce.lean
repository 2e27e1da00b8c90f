import BuildMetrics.Proofs.Api.Bodies
import BuildMetrics.Proofs.Api.Failure
import BuildMetrics.Proofs.Codecs
import BuildMetrics.Proofs.Config.Stable
import BuildMetrics.Proofs.Service.Lifecycle
import BuildMetrics.Sink.Proxy

/-!
# The configuration in force

Whatever requests come, the configuration in force is a normal one. So what a server shows of it
can be put in force again, and nothing changes.

* `isSettled_answer`: no call puts anything else in force, so no requests do;
* `Request.SetsConfig.respond_eq`, `Request.SetsConfig.respond_of_tooLong`: what is answered when it
  is put in force again, in a body that is taken in and in one that is not;
* `normalized_stable`: all that stays as it is in a normal configuration.
-/

namespace BuildMetrics

variable {S α : Type} {factory : SinkFactory (StateM S)} {w : S}

/-- A configuration is read from what it is written as. -/
theorem Config.readsBack (c : Config) : Config.codec.ReadsBack c := by
  have hsource : Json.Fits (fun _ => False) (Json.Codec.string.option.write c.source) := by
    cases c.source with
    | none => exact .null
    | some source => exact .string source
  have hlimits : Json.Fits (fun _ => False) (TagLimits.codec.write c.tagLimits) :=
    .member (Json.Codec.fits_write_uint64 _) <| .member (Json.Codec.fits_write_uint64 _) <|
      .object nofun
  refine Json.Codec.readsBack_of_no_floats c.rereads ?_
  exact .member (.string _) <| .member (Json.Codec.fits_write_uint32 _) <|
    .member (Json.Codec.fits_write_uint64 _) <| .member (.string _) <| .member (.string _) <|
    .member hsource <| .member (.bool _) <| .member (.bool _) <| .member (.bool _) <|
    .member hlimits <| .object nofun

namespace Service

/-- Opening a sink leaves the configuration alone. -/
theorem config_openSink (service : Service (StateM S)) :
    (openSink factory service w).1.2.config = service.config := by
  obtain ⟨config, held⟩ := service
  cases held with
  | some sink => rfl
  | none =>
    cases hendpoint : config.endpoint? with
    | none =>
      simp only [openSink, hendpoint]
      rfl
    | some endpoint =>
      rcases hopen : factory endpoint w with ⟨answer, w'⟩
      simp only [openSink, bind, StateT.bind, hendpoint, hopen]
      cases answer <;> rfl

/-- Nothing that is done with the sink changes the configuration. -/
theorem config_withSink {action : Config → Sink (StateM S) → StateM S α}
    (service : Service (StateM S)) :
    (withSink factory action service w).1.2.config = service.config := by
  obtain ⟨config, held⟩ := service
  cases hproxy : config.isConfigured with
  | false => rw [withSink_of_not_isConfigured hproxy]
  | true =>
    rw [withSink_of_isConfigured hproxy]
    have hconfig := @config_openSink S factory w ⟨config, held⟩
    generalize openSink factory ⟨config, held⟩ w = opened at hconfig ⊢
    obtain ⟨⟨answer, service⟩, w'⟩ := opened
    cases answer <;> exact hconfig

/-- A configuration that has a normal form is in force in that form, and it is what was
answered. -/
theorem update_of_normalized {given config : Config} (h : given.normalized = .ok config)
    (service : Service (StateM S)) :
    ((update given : StateT _ (StateM S) _) service w).1 = (.ok config, ⟨config, none⟩) := by
  obtain ⟨old, held⟩ := service
  cases held with
  | none => rw [update_of_closed h]
  | some sink => rw [update_of_open h]

end Service

namespace Api

/-- The configuration in force is a normal one. -/
def State.IsSettled (s : State (StateM S)) : Prop :=
  s.service.config.normalized = .ok s.service.config

variable {s : State (StateM S)} {o : Occasion (StateM S)}

/-- What is put in force is a normal configuration. -/
theorem isSettled_update (given : Config) (h : s.IsSettled) :
    let service := ((Service.update given : StateT _ (StateM S) _) s.service w).1.2
    service.config.normalized = .ok service.config := by
  cases hgiven : given.normalized with
  | error e =>
    rw [Service.update_of_error hgiven]
    exact h
  | ok config =>
    rw [Service.update_of_normalized hgiven]
    exact Config.normalized_of_normalized hgiven

/-- **No call puts anything else in force.** -/
theorem isSettled_answer (call : Call) (h : s.IsSettled) : (call.answer o s w).1.2.IsSettled := by
  cases call with
  | reportRun event =>
    rw [answer_reportRun, map_apply, answerRun_eq, get_bind_apply, map_onService_apply]
    show Config.normalized _ = .ok _
    dsimp only
    rw [Service.reportRun, Service.config_withSink]
    exact h
  | reportStep event =>
    by_cases horder : event.endTime < event.startTime
    · rw [answer_reportStep, map_apply, answerStep, if_pos horder]
      exact h
    · rw [answer_reportStep, map_apply, answerStep_eq o horder, map_onService_apply]
      show Config.normalized _ = .ok _
      dsimp only
      rw [Service.reportStep, Service.config_withSink]
      exact h
  | showConfig => exact h
  | setConfig given =>
    -- what is put in force is the normal form of what is given
    rw [answer_setConfig, map_apply, answerConfig_eq, map_onService_apply]
    exact isSettled_update given h
  | showProperty job =>
    rw [Call.answer, get_bind_apply]
    cases s.jobs.get? job <;> exact h
  | setProperty job property => exact h
  | dropProperty job =>
    rw [Call.answer, get_bind_apply]
    cases s.jobs.get? job <;> exact h
  | showHealth => exact h

/-- Whatever a request asks for, a normal configuration is in force when it has been answered. -/
theorem isSettled_respond (r : Request) (h : s.IsSettled) : (respond o r s w).1.2.IsSettled := by
  by_cases hmethod : r.method = .options
  · rw [respond, if_pos hmethod]
    exact h
  · cases hcall : r.call with
    | error rejection =>
      rw [respond, if_neg hmethod, hcall]
      exact h
    | ok call =>
      rw [respond_of_call hmethod hcall, map_apply]
      exact isSettled_answer call h

/-- Whatever requests come, a normal configuration stays in force. -/
theorem isSettled_respondAll (visits : List Visit) (h : s.IsSettled) :
    (respondAll factory visits s w).1.2.IsSettled := by
  induction visits generalizing s w with
  | nil => exact h
  | cons visit visits ih => exact ih (isSettled_respond visit.request h)

/-! ## Showing it and putting it in force again -/

/-- A request to show the configuration. -/
structure Request.ShowsConfig (r : Request) : Prop where
  /-- something is to be shown -/
  method : r.method = .get
  /-- the configuration is -/
  route : Route.ofTarget? r.target = some .config

/-- A request to put a configuration in force. -/
structure Request.SetsConfig (r : Request) (json : Json) : Prop where
  /-- something is to be set -/
  method : r.method = .put
  /-- the configuration is -/
  route : Route.ofTarget? r.target = some .config
  /-- the body says that it is JSON -/
  contentType : r.contentType.any isJsonType = true
  /-- the body -/
  body : r.body = .ofText json.print

/-- Such a request is a call to show the configuration. -/
theorem Request.ShowsConfig.call_eq {r : Request} (h : r.ShowsConfig) :
    r.call = .ok .showConfig := by
  simp only [Request.call, h.method, h.route]
  rfl

/-- If it is not too long, such a request is a call to put this configuration in force. -/
theorem Request.SetsConfig.call_eq {r : Request} {config : Config}
    (h : r.SetsConfig (Config.codec.write config)) (hfits : r.body.bytes.length ≤ 2097152) :
    r.call = .ok (.setConfig config) := by
  have hread : r.read Config.codec = .ok config := by
    rw [Request.read_of_fits h.contentType h.body hfits]
    exact congrArg (Except.mapError _) (Config.readsBack config)
  simp only [Request.call, h.method, h.route, hread]
  rfl

/-- What is shown is the configuration in force, and showing it changes nothing. -/
theorem Request.ShowsConfig.respond_eq {r : Request} (h : r.ShowsConfig) :
    respond o r s w = ((⟨200, some (Config.codec.write s.service.config)⟩, s), w) := by
  have hmethod : r.method ≠ .options := by simp [h.method]
  have hhead : r.method ≠ .head := by simp [h.method]
  rw [respond_of_call hmethod h.call_eq, map_apply, Request.responseFor, if_neg hhead]
  rfl

/-- A normal configuration that is put in force is answered as it stands. -/
theorem Request.SetsConfig.respond_eq {r : Request} {config : Config}
    (h : r.SetsConfig (Config.codec.write config)) (hfits : r.body.bytes.length ≤ 2097152)
    (hnormal : config.normalized = .ok config) :
    (respond o r s w).1.1 = ⟨200, some (Config.codec.write config)⟩ := by
  have hmethod : r.method ≠ .options := by simp [h.method]
  have hhead : r.method ≠ .head := by simp [h.method]
  rw [respond_of_call hmethod (h.call_eq hfits), map_apply, Request.responseFor, if_neg hhead,
    answer_setConfig, map_apply, answerConfig_eq, map_onService_apply]
  dsimp only
  rw [Service.update_of_normalized hnormal]
  rfl

/-- A configuration that is too long to be taken in changes nothing. -/
theorem Request.SetsConfig.respond_of_tooLong {r : Request} {json : Json} (h : r.SetsConfig json)
    (hlong : 2097152 < r.body.bytes.length) : respond o r s w = ((⟨413, none⟩, s), w) := by
  have hmethod : r.method ≠ .options := by simp [h.method]
  have hcall : r.call = .error .tooLong := by
    simp only [Request.call, h.method, h.route, Request.read_of_tooLong h.contentType hlong]
    rfl
  rw [respond, if_neg hmethod, hcall]
  rfl

/-- A server begins with the normal form of its configuration. -/
theorem State.ofConfig_of_normalized {given config : Config} (h : given.normalized = .ok config) :
    (State.ofConfig given : Except Error (State (StateM S))) = .ok ⟨.ofConfig config, []⟩ := by
  rw [State.ofConfig, h]
  rfl

/-- **A normal configuration is stable.** It is its own normal form, with another host and port it
has the normal form that the one before has with them, and if it has a proxy, that has an endpoint
for which a sink can be opened. Whatever a server was asked since it began with it, what it shows of
its configuration can be put in force and is then what is answered; it only has to come in a body
that the server takes in. -/
theorem normalized_stable {given config : Config} (h : given.normalized = .ok config) :
    config.normalized = .ok config ∧
    (∀ hostname port, (Command.override given hostname port).normalized =
      (Command.override config hostname port).normalized) ∧
    (config.isConfigured = true ↔ ∃ endpoint, config.endpoint? = some endpoint) ∧
    (∀ endpoint, config.endpoint? = some endpoint →
      endpoint.isConfigured = true ∧ endpoint.host = config.proxyHostname ∧
        endpoint.port.toNat = config.proxyPort.toNat ∧
        ∀ (network : Network (StateM S)) (before : ProxySink (StateM S)),
          ProxySink.factory network endpoint before =
            pure (.ok (ProxySink.sink network), .ofEndpoint endpoint)) ∧
    ∀ (factory : SinkFactory (StateM S)) (visits : List Visit) (w : S),
      ∃ start, State.ofConfig given = .ok start ∧
        let reached := respondAll factory visits start w
        ∀ (shown : Visit), shown.request.ShowsConfig →
          ∃ json, respond (shown.occasion factory) shown.request reached.1.2 reached.2 =
              ((⟨200, some json⟩, reached.1.2), reached.2) ∧
            ∀ (put : Visit), put.request.SetsConfig json →
              put.request.body.bytes.length ≤ 2097152 →
              (respond (put.occasion factory) put.request reached.1.2 reached.2).1.1 =
                ⟨200, some json⟩ := by
  have hnormal := Config.normalized_of_normalized h
  refine ⟨hnormal, Config.normalized_override h, ?_, ?_, ?_⟩
  · exact ⟨Config.endpoint?_of_isConfigured h,
      fun ⟨endpoint, hendpoint⟩ => Config.isConfigured_of_endpoint? hendpoint⟩
  · intro endpoint hendpoint
    obtain ⟨hconfigured, hhost, hport⟩ := Config.of_endpoint? h hendpoint
    refine ⟨hconfigured, hhost, hport, fun network before => ?_⟩
    rw [ProxySink.factory, if_pos hconfigured]
  · intro factory visits w
    refine ⟨_, State.ofConfig_of_normalized h, ?_⟩
    have hsettled : State.IsSettled (S := S) ⟨.ofConfig config, []⟩ := hnormal
    have hreached := @isSettled_respondAll S factory w _ visits hsettled
    intro reached shown hshown
    refine ⟨_, hshown.respond_eq, fun put hput hfits => ?_⟩
    exact hput.respond_eq hfits hreached

/-- A configuration with blanks around the host and a path that is not clean. -/
def spacedConfig : Config :=
  { Config.default with proxyHostname := " proxy\t", jobMetricsPrefix := "Team A.jobs" }

/-- The configuration is to be shown. -/
def showVisit : Visit := ⟨⟨.get, "/config", none, ""⟩, 3, 0⟩

/-- What was shown is to be put in force. -/
def againVisit (json : Json) : Visit :=
  ⟨⟨.put, "/config", some "application/json", .ofText json.print⟩, 4, 0⟩

/-- What the server shows when the proxy was moved before. -/
def movedJson : Json :=
  Config.codec.write { Config.default with proxyHostname := "proxy", proxyPort := 2879 }

/-- The proxy of such a configuration is moved, then what is shown of it is put in force again. -/
theorem normalized_stable_spaced :
    spacedConfig.normalized = .ok spacedConfig.cleaned ∧
    spacedConfig.cleaned.normalized = .ok spacedConfig.cleaned ∧
    spacedConfig.cleaned.endpoint? = some ⟨"proxy", 2878⟩ ∧
    Endpoint.isConfigured ⟨"proxy", 2878⟩ = true ∧
    (Command.override spacedConfig none (some 70000)).normalized =
      (Command.override spacedConfig.cleaned none (some 70000)).normalized ∧
    (againVisit movedJson).request.body.bytes.length ≤ 2097152 ∧
    ∃ start, State.ofConfig spacedConfig = .ok start ∧
      let reached := respondAll MemorySink.factory [moveVisit] start MemorySink.empty
      respond (showVisit.occasion MemorySink.factory) showVisit.request reached.1.2 reached.2 =
        ((⟨200, some movedJson⟩, reached.1.2), reached.2) ∧
      (respond ((againVisit movedJson).occasion MemorySink.factory) (againVisit movedJson).request
        reached.1.2 reached.2).1.1 = ⟨200, some movedJson⟩ := by
  have hconfig : spacedConfig.normalized = .ok spacedConfig.cleaned :=
    Config.normalized_eq_ok_iff.mpr ⟨by decide, rfl⟩
  have hendpoint : spacedConfig.cleaned.endpoint? = some ⟨"proxy", 2878⟩ := by decide
  have hfits : (againVisit movedJson).request.body.bytes.length ≤ 2097152 := by
    show (Text.utf8Bytes movedJson.print).length ≤ 2097152
    rw [Text.utf8Bytes, Json.print, String.toList_ofList]
    decide +kernel
  have hshows : showVisit.request.ShowsConfig := ⟨rfl, by decide⟩
  have hsets : (againVisit movedJson).request.SetsConfig movedJson :=
    ⟨rfl, by decide, by decide, rfl⟩
  obtain ⟨hnormal, hoverride, -, hproxy, hserver⟩ := normalized_stable hconfig
  obtain ⟨start, hstart, hreached⟩ := hserver MemorySink.factory [moveVisit] MemorySink.empty
  refine ⟨hconfig, hnormal, hendpoint, (hproxy _ hendpoint).1, hoverride none (some 70000), hfits,
    start, hstart, ?_⟩
  obtain ⟨json, hshown, hagain⟩ := hreached showVisit hshows
  -- what is shown is the configuration that the request before has put in force
  have hjson : json = movedJson := by
    obtain rfl : start = ⟨.ofConfig spacedConfig.cleaned, []⟩ :=
      Except.ok.inj (hstart.symm.trans (State.ofConfig_of_normalized hconfig))
    have hmoved : (respondAll MemorySink.factory [moveVisit] ⟨.ofConfig spacedConfig.cleaned, []⟩
        MemorySink.empty).1.2.service.config =
          { Config.default with proxyHostname := "proxy", proxyPort := 2879 } := by
      decide +kernel
    rw [hshows.respond_eq, hmoved] at hshown
    have hbody := congrArg (fun done => done.1.1.body) hshown
    exact (Option.some.inj hbody).symm
  subst hjson
  exact ⟨hshown, hagain _ hsets hfits⟩

end Api

end BuildMetrics
