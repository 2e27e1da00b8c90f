import BuildMetrics.Proofs.Sink.Ledger

/-!
# Worlds that look alike

Two worlds can differ in what no sink shows: how often a connection was tried, say. A relation on
worlds holds of those that look alike if a factory, and the sinks that it opens, answer the same in
both and leave worlds that look alike again. Then so does everything that is done with them, since
nothing else looks at the world.

* `RunsAlike.emit`, `RunsAlike.reportRun`: reports to sinks that are alike tell the same;
* `SinkFactory.Indifferent`: what it is for a factory not to depend on an attempt that failed;
* `SinkFactory.alike_logging`: a world looks like itself with a ledger beside it.
-/

namespace BuildMetrics

open Run

variable {S T α β : Type} {R : S → T → Prop}

/-- In worlds that are related two programs give answers that are related, and leave worlds that are
related. -/
def RunsAlike (R : S → T → Prop) (P : α → β → Prop) (x : StateM S α) (y : StateM T β) : Prop :=
  ∀ w v, R w v → P (x w).1 (y v).1 ∧ R (x w).2 (y v).2

namespace RunsAlike

variable {α' β' : Type} {P : α → β → Prop} {P' : α' → β' → Prop}

theorem pure {a : α} {b : β} (h : P a b) : RunsAlike R P (pure a) (pure b) :=
  fun _ _ hw => ⟨h, hw⟩

/-- Actions that run alike are followed alike by actions that run alike. -/
theorem bind {x : StateM S α} {y : StateM T β} {f : α → StateM S α'} {g : β → StateM T β'}
    (hxy : RunsAlike R P x y) (hfg : ∀ a b, P a b → RunsAlike R P' (f a) (g b)) :
    RunsAlike R P' (x >>= f) (y >>= g) := by
  intro w v hw
  obtain ⟨hanswer, hworld⟩ := hxy w v hw
  exact hfg _ _ hanswer _ _ hworld

/-- What follows two programs with the same answer has to agree on that answer only. -/
theorem bind_eq {x : StateM S α} {y : StateM T α} {f : α → StateM S α'} {g : α → StateM T β'}
    (hxy : RunsAlike R Eq x y) (hfg : ∀ a, RunsAlike R P' (f a) (g a)) :
    RunsAlike R P' (x >>= f) (y >>= g) := by
  refine hxy.bind fun a b hab => ?_
  subst hab
  exact hfg a

end RunsAlike

/-! ## Sinks -/

/-- Two sinks answer the same in worlds that are related. -/
structure Sink.Alike (R : S → T → Prop) (sink : Sink (StateM S)) (sink' : Sink (StateM T)) :
    Prop where
  /-- to each record -/
  send : ∀ r, RunsAlike R Eq (sink.send r) (sink'.send r)
  /-- when they deliver -/
  flush : RunsAlike R Eq sink.flush sink'.flush
  /-- when they let go -/
  close : RunsAlike R Eq sink.close sink'.close

namespace Sink.Alike

variable {sink : Sink (StateM S)} {sink' : Sink (StateM T)} (h : sink.Alike R sink')
include h

theorem emitOne (r : Record) : RunsAlike R Eq (emitOne sink r) (emitOne sink' r) := by
  rw [BuildMetrics.emitOne, BuildMetrics.emitOne]
  split
  · exact .pure rfl
  · refine (h.send r).bind_eq fun outcome => ?_
    cases outcome with
    | ok u => exact .pure rfl
    | error e => exact .pure rfl

theorem emit (rs : List Record) : RunsAlike R Eq (emit sink rs) (emit sink' rs) := by
  induction rs with
  | nil => exact .pure rfl
  | cons r rs ih => exact (h.emitOne r).bind_eq fun _ => ih.bind_eq fun _ => .pure rfl

theorem emitPasses (ps : List PassRecords) :
    RunsAlike R Eq (emitPasses sink ps) (emitPasses sink' ps) := by
  induction ps with
  | nil => exact .pure rfl
  | cons p ps ih =>
    have hpass : RunsAlike R Eq (emitPass sink p) (emitPass sink' p) :=
      (h.emit p.records).bind_eq fun _ => .pure rfl
    exact hpass.bind_eq fun _ => ih.bind_eq fun _ => .pure rfl

theorem reportRun (config : Config) (now : Millis) (event : Event)
    (property : Option JobProperty) :
    RunsAlike R Eq (reportRun sink config now event property)
      (reportRun sink' config now event property) :=
  (h.emitPasses _).bind_eq fun _ => h.flush.bind_eq fun _ => .pure rfl

theorem reportStep (config : Config) (now : Millis) (event : StepEvent) :
    RunsAlike R Eq (reportStep sink config now event) (reportStep sink' config now event) :=
  h.emit _

end Sink.Alike

/-! ## Factories -/

/-- Two attempts to open a sink fail for the same reason, or open sinks that are alike. -/
inductive OpensAlike (R : S → T → Prop) :
    Except SinkError (Sink (StateM S)) → Except SinkError (Sink (StateM T)) → Prop where
  /-- both fail -/
  | error (e : SinkError) : OpensAlike R (.error e) (.error e)
  /-- both open a sink -/
  | ok {sink : Sink (StateM S)} {sink' : Sink (StateM T)} (h : sink.Alike R sink') :
    OpensAlike R (.ok sink) (.ok sink')

/-- Two factories open sinks that are alike in worlds that are related, or do not open any. -/
def SinkFactory.Alike (R : S → T → Prop) (factory : SinkFactory (StateM S))
    (factory' : SinkFactory (StateM T)) : Prop :=
  ∀ endpoint, RunsAlike R (OpensAlike R) (factory endpoint) (factory' endpoint)

/-- The factory and its sinks answer the same in worlds that are related, and the world after an
attempt that failed is related to the world before it. -/
structure SinkFactory.Indifferent (factory : SinkFactory (StateM S)) (R : S → S → Prop) : Prop where
  /-- each world is related to itself -/
  refl : ∀ w, R w w
  /-- related worlds are not told apart -/
  alike : factory.Alike R factory
  /-- an attempt that failed is not seen -/
  failed : ∀ endpoint w e w', factory endpoint w = (.error e, w') → R w' w

/-! ## Logs -/

/-- The world with some log beside it. -/
def Logged {L : Type} (w : S) (v : L × S) : Prop := w = v.2

/-- A sink is like the same sink with a log beside it. -/
theorem Sink.alike_logging {L : Type} (sink : Sink (StateM S)) (note : Note L) :
    sink.Alike Logged (sink.logging note) where
  send _ := by
    rintro w ⟨log, _⟩ rfl
    exact ⟨rfl, rfl⟩
  flush := by
    rintro w ⟨log, _⟩ rfl
    exact ⟨rfl, rfl⟩
  close := by
    rintro w ⟨log, _⟩ rfl
    exact ⟨rfl, rfl⟩

/-- Nothing that is done with a factory sees the ledger. -/
theorem SinkFactory.alike_logging (factory : SinkFactory (StateM S)) :
    factory.Alike Logged factory.logging := by
  rintro endpoint w ⟨ledger, _⟩ rfl
  rw [SinkFactory.logging]
  rcases factory endpoint w with ⟨answer, w'⟩
  cases answer with
  | error e => exact ⟨.error e, rfl⟩
  | ok sink => exact ⟨.ok (sink.alike_logging _), rfl⟩

end BuildMetrics
