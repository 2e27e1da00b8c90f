import BuildMetrics.Proofs.Service.Lifecycle
import BuildMetrics.Proofs.Sink.Alike

/-!
# Services in worlds that look alike

A service sees the world only through its factory and its sink. So two services that hold the same
configuration, and sinks that are alike, do the same in worlds that look alike.

* `RunsAlikeOver`: two programs over a state;
* `runsAlikeOver_withSink`, `runsAlikeOver_update`: the two things that a service does with the
  world;
* `withSink_of_error`: what fails has at most tried to open a sink.
-/

namespace BuildMetrics

open Run (Event StepEvent)

variable {S T τ τ' α β α' β' : Type} {R : S → T → Prop} {Q : τ → τ' → Prop} {P : α → β → Prop}
  {P' : α' → β' → Prop}

/-- From states that are related, two programs over them run alike and leave states that are
related. -/
def RunsAlikeOver (Q : τ → τ' → Prop) (R : S → T → Prop) (P : α → β → Prop)
    (x : StateT τ (StateM S) α) (y : StateT τ' (StateM T) β) : Prop :=
  ∀ s t, Q s t → RunsAlike R (fun p q => P p.1 q.1 ∧ Q p.2 q.2) (x s) (y t)

namespace RunsAlikeOver

theorem pure {a : α} {b : β} (h : P a b) : RunsAlikeOver Q R P (pure a) (pure b) :=
  fun _ _ hs => .pure ⟨h, hs⟩

/-- Actions that run alike are followed alike by actions that run alike. -/
theorem bind {x : StateT τ (StateM S) α} {y : StateT τ' (StateM T) β}
    {f : α → StateT τ (StateM S) α'} {g : β → StateT τ' (StateM T) β'}
    (hxy : RunsAlikeOver Q R P x y) (hfg : ∀ a b, P a b → RunsAlikeOver Q R P' (f a) (g b)) :
    RunsAlikeOver Q R P' (x >>= f) (y >>= g) :=
  fun s t hs => (hxy s t hs).bind fun _ _ h => hfg _ _ h.1 _ _ h.2

/-- What follows two programs with the same answer has to agree on that answer only. -/
theorem bind_eq {x : StateT τ (StateM S) α} {y : StateT τ' (StateM T) α}
    {f : α → StateT τ (StateM S) α'} {g : α → StateT τ' (StateM T) β'}
    (hxy : RunsAlikeOver Q R Eq x y) (hfg : ∀ a, RunsAlikeOver Q R P' (f a) (g a)) :
    RunsAlikeOver Q R P' (x >>= f) (y >>= g) := by
  refine hxy.bind fun a b hab => ?_
  subst hab
  exact hfg a

theorem map {x : StateT τ (StateM S) α} {y : StateT τ' (StateM T) β} {f : α → α'} {g : β → β'}
    (hxy : RunsAlikeOver Q R P x y) (hfg : ∀ a b, P a b → P' (f a) (g b)) :
    RunsAlikeOver Q R P' (f <$> x) (g <$> y) := by
  rw [map_eq_pure_bind, map_eq_pure_bind]
  exact hxy.bind fun a b hab => .pure (hfg a b hab)

theorem get : RunsAlikeOver Q R Q (get : StateT τ (StateM S) τ) (MonadState.get) :=
  fun _ _ hs => .pure ⟨hs, hs⟩

theorem modify {f : τ → τ} {g : τ' → τ'} (h : ∀ s t, Q s t → Q (f s) (g t)) :
    RunsAlikeOver Q R Eq (modify f : StateT τ (StateM S) PUnit) (modify g) :=
  fun s t hs => .pure ⟨rfl, h s t hs⟩

/-- A program that does not look at the state. -/
theorem lift {x : StateM S α} {y : StateM T β} (h : RunsAlike R P x y) :
    RunsAlikeOver Q R P (liftM x : StateT τ (StateM S) α) (liftM y) := by
  intro s t hs
  show RunsAlike R _ (x >>= fun a => Pure.pure (a, s)) (y >>= fun b => Pure.pure (b, t))
  exact h.bind fun _ _ hp => .pure ⟨hp, hs⟩

end RunsAlikeOver

namespace Service

/-- The services hold the same configuration, and no sinks or sinks that are alike. -/
structure Alike (R : S → T → Prop) (s : Service (StateM S)) (t : Service (StateM T)) : Prop where
  /-- the configurations are the same -/
  config : s.config = t.config
  /-- the sinks are alike -/
  sink : Option.Rel (Sink.Alike R) s.sink t.sink

section

variable {factory : SinkFactory (StateM S)} {factory' : SinkFactory (StateM T)}
  (hopens : factory.Alike R factory')
include hopens

/-- Services that are alike open sinks that are alike. -/
theorem runsAlikeOver_openSink :
    RunsAlikeOver (Alike R) R (OpensAlike R) (openSink factory) (openSink factory') := by
  rintro ⟨config, held⟩ ⟨_, held'⟩ ⟨rfl, hheld⟩
  cases hheld with
  | some hsinks => exact .pure ⟨.ok hsinks, rfl, .some hsinks⟩
  | none =>
    simp only [openSink]
    cases config.endpoint? with
    | none => exact .pure ⟨.error _, rfl, .none⟩
    | some endpoint =>
      refine (hopens endpoint).bind fun answer answer' hanswers => ?_
      cases hanswers with
      | error e => exact .pure ⟨.error e, rfl, .none⟩
      | ok hsinks => exact .pure ⟨.ok hsinks, rfl, .some hsinks⟩

/-- Services that are alike do alike what is done with their sinks. -/
theorem runsAlikeOver_withSink {action : Config → Sink (StateM S) → StateM S α}
    {action' : Config → Sink (StateM T) → StateM T α}
    (haction : ∀ config sink sink', Sink.Alike R sink sink' →
      RunsAlike R Eq (action config sink) (action' config sink')) :
    RunsAlikeOver (Alike R) R Eq (withSink factory action) (withSink factory' action') := by
  refine RunsAlikeOver.get.bind fun s t hs => ?_
  rw [hs.config]
  cases hproxy : t.config.isConfigured with
  | false => simpa [hproxy] using RunsAlikeOver.pure rfl
  | true =>
    simp only [hproxy, Bool.not_true, Bool.false_eq_true, if_false]
    refine (runsAlikeOver_openSink hopens).bind fun answer answer' hanswers => ?_
    cases hanswers with
    | error e => exact .pure rfl
    | ok hsinks => exact (RunsAlikeOver.lift (haction _ _ _ hsinks)).bind_eq fun _ => .pure rfl

theorem runsAlikeOver_reportRun (now : Millis) (event : Event) (property : Option JobProperty) :
    RunsAlikeOver (Alike R) R Eq (reportRun factory now event property)
      (reportRun factory' now event property) :=
  runsAlikeOver_withSink hopens fun config _ _ hsinks => hsinks.reportRun config now event property

theorem runsAlikeOver_reportStep (now : Millis) (event : StepEvent) :
    RunsAlikeOver (Alike R) R Eq (reportStep factory now event) (reportStep factory' now event) :=
  runsAlikeOver_withSink hopens fun config _ _ hsinks =>
    (hsinks.reportStep config now event).bind_eq fun _ => hsinks.flush.bind_eq fun _ => .pure rfl

end

theorem runsAlikeOver_closeSink : RunsAlikeOver (Alike R) R Eq closeSink closeSink := by
  rintro ⟨config, held⟩ ⟨_, held'⟩ ⟨rfl, hheld⟩
  cases hheld with
  | none => exact .pure ⟨rfl, rfl, .none⟩
  | some hsinks => exact hsinks.close.bind_eq fun _ => .pure ⟨rfl, rfl, .none⟩

theorem runsAlikeOver_update (given : Config) :
    RunsAlikeOver (Alike R) R Eq (update given) (update given) := by
  rw [update, update]
  split
  · exact .pure rfl
  · refine runsAlikeOver_closeSink.bind_eq fun _ => ?_
    refine RunsAlikeOver.bind_eq (.modify ?_) fun _ => .pure rfl
    exact fun s t hs => ⟨rfl, hs.sink⟩

/-! ## What fails -/

section

variable {factory : SinkFactory (StateM S)} {action : Config → Sink (StateM S) → StateM S α}

/-- At most an attempt to open a sink was made, and it failed. -/
def Tried (factory : SinkFactory (StateM S)) (service : Service (StateM S)) (w w' : S) : Prop :=
  w' = w ∨ service.sink = none ∧ ∃ endpoint e, service.config.endpoint? = some endpoint ∧
    factory endpoint w = (.error e, w')

/-- What cannot have its sink leaves the service as it was. -/
theorem withSink_of_error {service : Service (StateM S)} {w : S} {e : SinkError}
    (h : (withSink factory action service w).1.1 = .error e) :
    (withSink factory action service w).1.2 = service ∧
      Tried factory service w (withSink factory action service w).2 := by
  obtain ⟨config, held⟩ := service
  cases hproxy : config.isConfigured with
  | false =>
    rw [withSink_of_not_isConfigured hproxy] at h
    cases h
  | true =>
    cases held with
    | some sink =>
      rw [withSink_of_open hproxy] at h
      cases h
    | none =>
      cases hendpoint : config.endpoint? with
      | none =>
        have hopen : openSink factory ⟨config, none⟩ w =
            ((.error .notConfigured, ⟨config, none⟩), w) := by
          simp only [openSink, hendpoint]
          rfl
        rw [withSink_of_isConfigured hproxy, hopen]
        exact ⟨rfl, .inl rfl⟩
      | some endpoint =>
        rcases hopen : factory endpoint w with ⟨answer, w'⟩
        cases answer with
        | error e' =>
          rw [withSink_of_refused hendpoint hopen]
          exact ⟨rfl, .inr ⟨rfl, endpoint, e', hendpoint, hopen⟩⟩
        | ok sink =>
          rw [withSink_of_opened hendpoint hopen] at h
          cases h

/-- A sink that was tried and refused is in no ledger. -/
theorem Tried.opened_eq {factory : SinkFactory (StateM S)}
    {service : Service (StateM (Ledger × S))} {before after : Ledger × S}
    (h : Tried factory.logging service before after) : after.1.opened = before.1.opened := by
  rcases h with rfl | ⟨-, endpoint, e, -, hfailed⟩
  · rfl
  · obtain ⟨ledger, w⟩ := before
    rw [SinkFactory.logging] at hfailed
    rcases hopen : factory endpoint w with ⟨answer, w'⟩
    rw [hopen] at hfailed
    cases answer with
    | error e' =>
      obtain ⟨-, rfl⟩ := Prod.mk.inj hfailed
      rfl
    | ok sink => cases hfailed

/-- Who does not depend on attempts that failed does not see the difference. -/
theorem Tried.related {R : S → S → Prop} {service : Service (StateM S)} {w w' : S}
    (h : Tried factory service w w') (hfactory : factory.Indifferent R) : R w' w := by
  rcases h with rfl | ⟨-, endpoint, e, -, hfailed⟩
  · exact hfactory.refl _
  · exact hfactory.failed endpoint w e w' hfailed

end

end Service

end BuildMetrics
