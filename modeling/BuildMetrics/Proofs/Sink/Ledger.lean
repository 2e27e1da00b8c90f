import BuildMetrics.Proofs.Sink.Calls
import Mathlib.Data.List.Basic

/-!
# The ledger of a factory

The sinks that a factory opens are told apart by the order in which it opened them. The ledger
keeps, for each of them, the endpoint it was opened for and the calls on it, and the openings that
failed. Like the log of a sink it stands beside the world, and nothing that is done with the factory
sees it.

A sink is well used if the calls on it are rounds, each some sends and a flush, and then at most one
call to close it.
-/

namespace BuildMetrics

/-! ## Rounds of calls -/

/-- Some sends and a flush after them. -/
def IsRound (calls : List SinkCall) : Prop :=
  ∃ (sends : List (Record × Outcome)) (flushed : Outcome),
    calls = sendCalls sends ++ [.flush flushed]

/-- Rounds one after the other. -/
inductive Rounds : List SinkCall → Prop where
  /-- no calls yet -/
  | nil : Rounds []
  /-- one round more -/
  | append {calls round : List SinkCall} (h : Rounds calls) (hround : IsRound round) :
      Rounds (calls ++ round)

variable {calls round : List SinkCall}

/-- No round closes the sink. -/
theorem IsRound.not_isClose (h : IsRound round) : ∀ call ∈ round, call.isClose = false := by
  obtain ⟨sends, flushed, rfl⟩ := h
  intro call hcall
  rcases List.mem_append.mp hcall with hsend | hflush
  · exact isClose_of_mem_sendCalls hsend
  · obtain rfl := List.mem_singleton.mp hflush
    rfl

theorem Rounds.not_isClose (h : Rounds calls) : ∀ call ∈ calls, call.isClose = false := by
  induction h with
  | nil => simp
  | append h hround ih => exact List.forall_mem_append.mpr ⟨ih, hround.not_isClose⟩

/-! ## The sinks that were opened -/

/-- A sink that was opened. -/
structure Opening where
  /-- the endpoint that it was opened for -/
  endpoint : Endpoint
  /-- the calls on it so far -/
  calls : List SinkCall

namespace Opening

/-- The sink was not asked to close. -/
def isOpen (o : Opening) : Bool := !o.calls.any SinkCall.isClose

/-- The calls on the sink are rounds, and it was closed at most once, after all of them. -/
def WellUsed (o : Opening) : Prop :=
  ∃ rounds, Rounds rounds ∧
    (o.calls = rounds ∨ ∃ outcome : Outcome, o.calls = rounds ++ [.close outcome])

/-- The sink was used in rounds and is closed. -/
def IsSpent (o : Opening) : Prop :=
  ∃ rounds, Rounds rounds ∧ ∃ outcome : Outcome, o.calls = rounds ++ [.close outcome]

variable {o : Opening}

/-- A sink on which only rounds were made has been used as it should be. -/
theorem wellUsed_of_rounds (h : Rounds o.calls) : o.WellUsed := ⟨o.calls, h, .inl rfl⟩

theorem isOpen_of_rounds (h : Rounds o.calls) : o.isOpen = true := by
  rw [isOpen, Bool.not_eq_true', List.any_eq_false]
  exact fun call hcall => by simp [h.not_isClose call hcall]

/-- A sink that was closed after its rounds has been used as it should be. -/
theorem IsSpent.wellUsed (h : o.IsSpent) : o.WellUsed := by
  obtain ⟨rounds, hrounds, hclose⟩ := h
  exact ⟨rounds, hrounds, .inr hclose⟩

theorem IsSpent.not_isOpen (h : o.IsSpent) : o.isOpen = false := by
  obtain ⟨rounds, -, outcome, hcalls⟩ := h
  rw [isOpen, hcalls, List.any_append]
  simp [SinkCall.isClose]

end Opening

/-! ## The ledger -/

/-- What was asked of a factory and of the sinks that it opened. -/
structure Ledger where
  /-- the endpoints for which it did not open a sink, and why -/
  refused : List (Endpoint × SinkError)
  /-- the sinks that it opened, in order -/
  opened : List Opening

namespace Ledger

/-- Nothing was asked yet. -/
def empty : Ledger := ⟨[], []⟩

/-- The ledger when one more opening has failed. -/
def refuse (ledger : Ledger) (endpoint : Endpoint) (e : SinkError) : Ledger :=
  { ledger with refused := ledger.refused ++ [(endpoint, e)] }

/-- The ledger when one more sink has been opened. -/
def enter (ledger : Ledger) (endpoint : Endpoint) : Ledger :=
  { ledger with opened := ledger.opened ++ [⟨endpoint, []⟩] }

/-- Notes a call on the sink that was opened after `i` others. -/
def note (i : Nat) : Note Ledger := fun call ledger =>
  { ledger with opened := ledger.opened.modify i fun o => { o with calls := o.calls ++ [call] } }

/-- Calls on the sink that was opened last. -/
theorem note_all (refused : List (Endpoint × SinkError)) (earlier : List Opening)
    (endpoint : Endpoint) (calls more : List SinkCall) :
    (note earlier.length).all more ⟨refused, earlier ++ [⟨endpoint, calls⟩]⟩ =
      ⟨refused, earlier ++ [⟨endpoint, calls ++ more⟩]⟩ := by
  induction more generalizing calls with
  | nil => rw [List.append_nil]; rfl
  | cons call more ih =>
    have hone : note earlier.length call ⟨refused, earlier ++ [⟨endpoint, calls⟩]⟩ =
        ⟨refused, earlier ++ [⟨endpoint, calls ++ [call]⟩]⟩ := by
      simp [note, List.modify_eq_take_cons_drop]
    calc (note earlier.length).all (call :: more) ⟨refused, earlier ++ [⟨endpoint, calls⟩]⟩
        = (note earlier.length).all more
            (note earlier.length call ⟨refused, earlier ++ [⟨endpoint, calls⟩]⟩) := rfl
      _ = ⟨refused, earlier ++ [⟨endpoint, calls ++ call :: more⟩]⟩ := by
        rw [hone, ih, List.append_assoc, List.singleton_append]

end Ledger

variable {σ : Type}

/-- A factory whose sinks are noted in a ledger beside the world. -/
def SinkFactory.logging (factory : SinkFactory (StateM σ)) :
    SinkFactory (StateM (Ledger × σ)) := fun endpoint (ledger, w) =>
  match factory endpoint w with
  | (.error e, w) => (.error e, ledger.refuse endpoint e, w)
  | (.ok sink, w) =>
    (.ok (sink.logging (Ledger.note ledger.opened.length)), ledger.enter endpoint, w)

end BuildMetrics
