import BuildMetrics.Config.Codec
import BuildMetrics.Proofs.Json.RoundTrip
import BuildMetrics.Report.Codec
import BuildMetrics.Run.Codec

/-!
# Texts of configurations, runs and reports

Every configuration, event and report can be written and read again.

* `rereads` and `yields` of each type: its codec reads what it wrote, and what it reads fits its
  text;
* `codecs_roundTrip`: so reading undoes writing for all of them.
-/

namespace BuildMetrics

open Json Json.Codec

variable {p : Place}

/-! ## Traces -/

namespace Trace

theorem ErrorInfo.rereads (e : ErrorInfo) : ErrorInfo.codec.Rereads p e :=
  rereads_record (by decide)
    ⟨rereads_defaulted (rereads_option (fun _ _ => rereads_string _ _) fun _ => nofun), trivial⟩ rfl

theorem ErrorInfo.yields : ErrorInfo.codec.Yields :=
  yields_record ⟨yields_defaulted (yields_option yields_string) .null, trivial⟩ fun _ => rfl

theorem NodeKind.rereads (k : NodeKind) : NodeKind.codec.Rereads p k :=
  rereads_word (by cases k <;> decide)

/-- A marker is read back, with its text or without one. -/
theorem Marker.rereads (m : Marker) : Marker.codec.Rereads p m := by
  cases m with
  | label text => rfl
  | threadName name => rfl
  | parallelBranch => rfl

theorem Marker.yields : Marker.codec.Yields := by
  refine yields_of_forall fun m => ?_
  cases m with
  | label text =>
    exact .member (.string _) <| .member (.string _) <| .object nofun
  | threadName name =>
    exact .member (.string _) <| .member (.string _) <| .object nofun
  | parallelBranch => exact .member (.string _) <| .object nofun

/-- A node of a trace is read back, also without what may be left out. -/
theorem Node.rereads (n : Node) : Node.codec.Rereads p n :=
  rereads_record (by decide)
    ⟨rereads_required (rereads_uint32 _ _), rereads_required (NodeKind.rereads _),
      rereads_defaulted (rereads_string _ _), rereads_required (rereads_int64 _ _),
      rereads_optional (fun _ _ => ErrorInfo.rereads _) fun _ => nofun,
      rereads_listed fun _ _ => Marker.rereads _, rereads_listed fun _ _ => rereads_uint32 _ _,
      trivial⟩ rfl

/-- What is read as a node of a trace fits when it is written. -/
theorem Node.yields : Node.codec.Yields :=
  yields_record
    ⟨yields_required yields_uint32, yields_required (yields_word _ _),
      yields_defaulted yields_string (.string _), yields_required yields_int64,
      yields_optional ErrorInfo.yields, yields_listed Marker.yields, yields_listed yields_uint32,
      trivial⟩ fun _ => rfl

end Trace

/-! ## Runs -/

namespace Run

theorem Result.rereads (r : Result) : Result.codec.Rereads p r :=
  rereads_word (by cases r <;> decide)

theorem Parameter.rereads (q : Parameter) : Parameter.codec.Rereads p q :=
  rereads_record (by decide)
    ⟨rereads_required (rereads_string _ _),
      rereads_defaulted (rereads_option (fun _ _ => rereads_string _ _) fun _ => nofun),
      trivial⟩ rfl

theorem Parameter.yields : Parameter.codec.Yields :=
  yields_record
    ⟨yields_required yields_string, yields_defaulted (yields_option yields_string) .null, trivial⟩
    fun _ => rfl

/-- The fields of a run as a whole are read back, also among those of an event. -/
theorem Summary.rereads_fields (s : Summary) : Summary.fields.Rereads p s.toRow :=
  ⟨rereads_required (rereads_string _ _), rereads_required (rereads_string _ _),
    rereads_required (rereads_int64 _ _), rereads_required (Result.rereads _),
    rereads_defaulted (rereads_list fun _ _ => Parameter.rereads _), trivial⟩

theorem Summary.yields_fields : Summary.fields.Yields :=
  ⟨yields_required yields_string, yields_required yields_string, yields_required yields_int64,
    yields_required (yields_word _ _),
    yields_defaulted (yields_list Parameter.yields) (finite_write_nil _), trivial⟩

theorem Summary.rereads (s : Summary) : Summary.codec.Rereads p s :=
  rereads_record (by decide) s.rereads_fields rfl

theorem Summary.yields : Summary.codec.Yields :=
  yields_record Summary.yields_fields fun _ => rfl

theorem TestCase.rereads (t : TestCase) : TestCase.codec.Rereads p t :=
  rereads_record (by decide)
    ⟨rereads_required (rereads_string _ _), rereads_defaulted (rereads_float _ _), trivial⟩ rfl

/-- The value of a double that is not there. -/
theorem finite_write_zero : Finite (Codec.float.write 0) := .float (by decide +kernel)

theorem TestCase.yields : TestCase.codec.Yields :=
  yields_record
    ⟨yields_required yields_string, yields_defaulted yields_float finite_write_zero, trivial⟩
    fun _ => rfl

/-- The tests of a run are read back: the counts, and the tests by outcome. -/
theorem TestReport.rereads (r : TestReport) : TestReport.codec.Rereads p r :=
  rereads_record (by decide)
    ⟨rereads_defaulted (rereads_uint64 _ _), rereads_defaulted (rereads_uint64 _ _),
      rereads_defaulted (rereads_uint64 _ _), rereads_defaulted (rereads_float _ _),
      rereads_defaulted (rereads_list fun _ _ => TestCase.rereads _),
      rereads_defaulted (rereads_list fun _ _ => TestCase.rereads _),
      rereads_defaulted (rereads_list fun _ _ => TestCase.rereads _), trivial⟩ rfl

/-- What is read as the tests of a run fits when it is written. -/
theorem TestReport.yields : TestReport.codec.Yields :=
  yields_record
    ⟨yields_defaulted yields_uint64 (fits_write_uint64 _),
      yields_defaulted yields_uint64 (fits_write_uint64 _),
      yields_defaulted yields_uint64 (fits_write_uint64 _),
      yields_defaulted yields_float finite_write_zero,
      yields_defaulted (yields_list TestCase.yields) (finite_write_nil _),
      yields_defaulted (yields_list TestCase.yields) (finite_write_nil _),
      yields_defaulted (yields_list TestCase.yields) (finite_write_nil _), trivial⟩
    fun _ => rfl

theorem CoverageCategory.rereads (c : CoverageCategory) : CoverageCategory.codec.Rereads p c :=
  rereads_word (by cases c <;> decide)

theorem CoverageEntry.rereads (e : CoverageEntry) : CoverageEntry.codec.Rereads p e :=
  rereads_record (by decide)
    ⟨rereads_required (CoverageCategory.rereads _), rereads_required (rereads_float _ _),
      rereads_defaulted (rereads_float _ _), rereads_defaulted (rereads_float _ _),
      rereads_defaulted (rereads_uint64 _ _), rereads_defaulted (rereads_uint64 _ _), trivial⟩ rfl

theorem CoverageEntry.yields : CoverageEntry.codec.Yields :=
  yields_record
    ⟨yields_required (yields_word _ _), yields_required yields_float,
      yields_defaulted yields_float finite_write_zero,
      yields_defaulted yields_float finite_write_zero,
      yields_defaulted yields_uint64 (fits_write_uint64 _),
      yields_defaulted yields_uint64 (fits_write_uint64 _), trivial⟩
    fun _ => rfl

/-- The coverage of a run is read back. -/
theorem CoverageReport.rereads (r : CoverageReport) : CoverageReport.codec.Rereads p r :=
  rereads_record (by decide)
    ⟨rereads_defaulted (rereads_list fun _ _ => CoverageEntry.rereads _), trivial⟩ rfl

/-- What is read as the coverage of a run fits when it is written. -/
theorem CoverageReport.yields : CoverageReport.codec.Yields :=
  yields_record
    ⟨yields_defaulted (yields_list CoverageEntry.yields) (finite_write_nil _), trivial⟩
    fun _ => rfl

/-- A parameter can be kept until the rest of an event has been read: nothing in it is nested. -/
theorem Parameter.isKept (q : Parameter) {room : Nat} (h : 0 < room) :
    (Draft.ofJson (Parameter.codec.write q)).isKept room = true := by
  obtain ⟨room, rfl⟩ : ∃ r, room = r + 1 := ⟨room - 1, by omega⟩
  refine isKept_object (List.forall_mem_cons.mpr ⟨rfl, List.forall_mem_cons.mpr ⟨?_, nofun⟩⟩)
  cases q.value <;> rfl

/-- A run holds lists and objects at most two levels deep, so its fields can be kept. -/
theorem Summary.isKept_of_mem_write (s : Summary) {room : Nat} (h : 1 < room) :
    ∀ m ∈ Summary.fields.write s.toRow, (Draft.ofJson m.2).isKept room = true := by
  obtain ⟨room, rfl⟩ : ∃ r, room = r + 1 := ⟨room - 1, by omega⟩
  refine List.forall_mem_cons.mpr ⟨rfl, List.forall_mem_cons.mpr ⟨rfl,
    List.forall_mem_cons.mpr ⟨rfl, List.forall_mem_cons.mpr ⟨rfl,
    List.forall_mem_cons.mpr ⟨isKept_array fun j hj => ?_, nofun⟩⟩⟩⟩⟩
  obtain ⟨q, -, rfl⟩ := List.mem_map.mp hj
  exact q.isKept (by omega)

/-- An event is read back, though the fields of the run stand among its own. -/
theorem Event.rereads (e : Event) : Event.codec.Rereads .top e := by
  have hbefore : Fields.nil.Rereads Place.top.inner () := trivial
  exact rereads_flat rfl (by decide) hbefore e.run.rereads_fields
    ⟨rereads_optional (fun _ _ => rereads_list fun _ _ => Trace.Node.rereads _) fun _ => nofun,
      rereads_optional (fun _ _ => TestReport.rereads _) fun _ => nofun,
      rereads_optional (fun _ _ => CoverageReport.rereads _) fun _ => nofun, trivial⟩
    (e.run.isKept_of_mem_write (by decide)) rfl

/-- What is read as an event fits when it is written. -/
theorem Event.yields : Event.codec.Yields :=
  yields_flat trivial Summary.yields_fields
    ⟨yields_optional (yields_list Trace.Node.yields), yields_optional TestReport.yields,
      yields_optional CoverageReport.yields, trivial⟩
    fun _ => rfl

theorem StepEvent.rereads (e : StepEvent) : StepEvent.codec.Rereads p e :=
  rereads_record (by decide)
    ⟨rereads_required (rereads_string _ _), rereads_required (rereads_string _ _),
      rereads_defaulted (rereads_string _ _), rereads_required (rereads_int64 _ _),
      rereads_required (rereads_int64 _ _), trivial⟩ rfl

theorem StepEvent.yields : StepEvent.codec.Yields :=
  yields_record
    ⟨yields_required yields_string, yields_required yields_string,
      yields_defaulted yields_string (.string _), yields_required yields_int64,
      yields_required yields_int64, trivial⟩
    fun _ => rfl

end Run

/-! ## Configurations -/

theorem TagLimits.rereads (l : TagLimits) : TagLimits.codec.Rereads p l :=
  rereads_record (by decide)
    ⟨rereads_defaulted (rereads_uint64 _ _), rereads_defaulted (rereads_uint64 _ _), trivial⟩ rfl

theorem TagLimits.yields : TagLimits.codec.Yields :=
  yields_record
    ⟨yields_defaulted yields_uint64 (fits_write_uint64 _),
      yields_defaulted yields_uint64 (fits_write_uint64 _), trivial⟩
    fun _ => rfl

theorem TagLimits.finite_write_default : Finite (TagLimits.codec.write TagLimits.default) :=
  .member (fits_write_uint64 _) <| .member (fits_write_uint64 _) <| .object nofun

/-- A configuration is read back. -/
theorem Config.rereads (c : Config) : Config.codec.Rereads p c :=
  rereads_record (by decide)
    ⟨rereads_defaulted (rereads_string _ _), rereads_defaulted (rereads_uint32 _ _),
      rereads_defaulted (rereads_uint64 _ _), rereads_defaulted (rereads_string _ _),
      rereads_defaulted (rereads_string _ _),
      rereads_defaulted (rereads_option (fun _ _ => rereads_string _ _) fun _ => nofun),
      rereads_defaulted (rereads_bool _ _), rereads_defaulted (rereads_bool _ _),
      rereads_defaulted (rereads_bool _ _), rereads_defaulted (TagLimits.rereads _), trivial⟩ rfl

/-- What is read as a configuration fits when it is written; so do the settings that stand for those
left out. -/
theorem Config.yields : Config.codec.Yields :=
  yields_record
    ⟨yields_defaulted yields_string (.string _),
      yields_defaulted yields_uint32 (fits_write_uint32 _),
      yields_defaulted yields_uint64 (fits_write_uint64 _),
      yields_defaulted yields_string (.string _), yields_defaulted yields_string (.string _),
      yields_defaulted (yields_option yields_string) .null,
      yields_defaulted yields_bool (.bool _), yields_defaulted yields_bool (.bool _),
      yields_defaulted yields_bool (.bool _),
      yields_defaulted TagLimits.yields TagLimits.finite_write_default, trivial⟩
    fun _ => rfl

theorem JobProperty.rereads (q : JobProperty) : JobProperty.codec.Rereads p q :=
  rereads_record (by decide)
    ⟨rereads_defaulted (rereads_bool _ _), rereads_defaulted (rereads_bool _ _),
      rereads_defaulted (rereads_bool _ _), rereads_defaulted (rereads_string _ _), trivial⟩ rfl

theorem JobProperty.yields : JobProperty.codec.Yields :=
  yields_record
    ⟨yields_defaulted yields_bool (.bool _), yields_defaulted yields_bool (.bool _),
      yields_defaulted yields_bool (.bool _), yields_defaulted yields_string (.string _), trivial⟩
    fun _ => rfl

/-! ## Reports -/

/-- The counts fit 64 bits. -/
def Emission.InRange (e : Emission) : Prop :=
  e.sent ≤ Config.greatestCount ∧ e.dropped ≤ Config.greatestCount ∧
    e.failed ≤ Config.greatestCount

/-- The counts of a pass fit 64 bits. -/
def PassSummary.InRange (s : PassSummary) : Prop := s.emission.InRange

/-- The counts of all passes fit 64 bits. -/
def RunReport.InRange (r : RunReport) : Prop := ∀ s ∈ r.passes, s.InRange

/-- Counts that fit are read back, also among the fields of a summary. -/
theorem Emission.rereads_fields {e : Emission} (h : e.InRange) : fields.Rereads p e.toRow :=
  ⟨rereads_required (rereads_nat h.1), rereads_required (rereads_nat h.2.1),
    rereads_required (rereads_nat h.2.2), trivial⟩

theorem Emission.yields_fields : fields.Yields :=
  ⟨yields_required yields_nat, yields_required yields_nat, yields_required yields_nat, trivial⟩

/-- A count that fits when it is written is not too great. -/
theorem le_greatestCount {n : Nat} (h : Finite (nat.write n)) : n ≤ Config.greatestCount := by
  cases h with
  | integer low high =>
    rw [Int.ofNat_eq_natCast] at high
    have hn : n < 18446744073709551616 := by omega
    exact Nat.le_of_lt_succ hn

/-- Counts that fit when they are written are in range. -/
theorem Emission.inRange_of_finite {e : Emission}
    (h : ∀ m ∈ fields.write e.toRow, Finite m.2) : e.InRange := by
  obtain ⟨hsent, h⟩ := List.forall_mem_cons.mp h
  obtain ⟨hdropped, h⟩ := List.forall_mem_cons.mp h
  obtain ⟨hfailed, -⟩ := List.forall_mem_cons.mp h
  exact ⟨le_greatestCount hsent, le_greatestCount hdropped, le_greatestCount hfailed⟩

/-- A summary that fits when it is written has counts in range. -/
theorem PassSummary.inRange_of_finite {s : PassSummary} (h : Finite (codec.write s)) :
    s.InRange := by
  cases h with
  | object h =>
    refine Emission.inRange_of_finite fun m hm => h m ?_
    exact List.mem_append_left _ (List.mem_append_right _ hm)

/-- A report that fits when it is written has counts in range. -/
theorem RunReport.inRange_of_finite {r : RunReport} (h : Finite (codec.write r)) : r.InRange := by
  cases h with
  | object h =>
    obtain ⟨-, h⟩ := List.forall_mem_cons.mp h
    obtain ⟨-, h⟩ := List.forall_mem_cons.mp h
    obtain ⟨hpasses, -⟩ := List.forall_mem_cons.mp h
    cases hpasses with
    | array hall =>
      exact fun s hs => PassSummary.inRange_of_finite (hall _ (List.mem_map_of_mem hs))

theorem Emission.rereads {e : Emission} (h : e.InRange) : codec.Rereads p e :=
  rereads_record (by decide) (rereads_fields h) rfl

theorem Emission.yields : codec.Yields := yields_record yields_fields fun _ => rfl

theorem PassKind.rereads (k : PassKind) : PassKind.codec.Rereads p k :=
  rereads_word (by cases k <;> decide)

/-- The summary of a pass is read back if its counts fit. -/
theorem PassSummary.rereads {s : PassSummary} (h : s.InRange) : codec.Rereads p s :=
  rereads_flat rfl (by decide) ⟨rereads_required (PassKind.rereads _), trivial⟩
    (Emission.rereads_fields h)
    ⟨rereads_optional (fun _ _ => rereads_string _ _) fun _ => nofun, trivial⟩
    (List.forall_mem_cons.mpr ⟨rfl, List.forall_mem_cons.mpr ⟨rfl,
      List.forall_mem_cons.mpr ⟨rfl, nofun⟩⟩⟩)
    rfl

theorem PassSummary.yields : codec.Yields :=
  yields_flat ⟨yields_required (yields_word _ _), trivial⟩ Emission.yields_fields
    ⟨yields_optional yields_string, trivial⟩ fun _ => rfl

/-- The report of a run is read back if its counts fit. -/
theorem RunReport.rereads {r : RunReport} (h : r.InRange) : codec.Rereads p r :=
  rereads_record (by decide)
    ⟨rereads_required (rereads_string _ _), rereads_required (rereads_string _ _),
      rereads_required (rereads_list fun s hs => PassSummary.rereads (h s hs)),
      rereads_optional (fun _ _ => rereads_string _ _) fun _ => nofun, trivial⟩ rfl

/-- What is read as the report of a run fits when it is written. -/
theorem RunReport.yields : codec.Yields :=
  yields_record
    ⟨yields_required yields_string, yields_required yields_string,
      yields_required (yields_list PassSummary.yields), yields_optional yields_string, trivial⟩
    fun _ => rfl

/-! ## All types -/

/-- **Reading undoes writing.** Every value whose counts fit 64 bits and whose doubles are finite
is read back from its text, and so is every value that was read from a text in the first place. It
is assumed of each finite double of the value that it is read back from its own digits. -/
theorem codecs_roundTrip :
    Run.Event.codec.RoundTrips (fun _ => True) ∧
    Trace.Node.codec.RoundTrips (fun _ => True) ∧
    Trace.Marker.codec.RoundTrips (fun _ => True) ∧
    Trace.ErrorInfo.codec.RoundTrips (fun _ => True) ∧
    Run.Parameter.codec.RoundTrips (fun _ => True) ∧
    Run.Summary.codec.RoundTrips (fun _ => True) ∧
    Run.TestReport.codec.RoundTrips (fun _ => True) ∧
    Run.CoverageReport.codec.RoundTrips (fun _ => True) ∧
    Config.codec.RoundTrips (fun _ => True) ∧
    JobProperty.codec.RoundTrips (fun _ => True) ∧
    Run.StepEvent.codec.RoundTrips (fun _ => True) ∧
    Emission.codec.RoundTrips Emission.InRange ∧
    PassSummary.codec.RoundTrips PassSummary.InRange ∧
    RunReport.codec.RoundTrips RunReport.InRange := by
  refine ⟨?_, ?_, ?_, ?_, ?_, ?_, ?_, ?_, ?_, ?_, ?_, ?_, ?_, ?_⟩
  · exact roundTrips (fun e _ => e.rereads) Run.Event.yields fun _ _ => trivial
  · exact roundTrips (fun n _ => n.rereads) Trace.Node.yields fun _ _ => trivial
  · exact roundTrips (fun m _ => m.rereads) Trace.Marker.yields fun _ _ => trivial
  · exact roundTrips (fun e _ => e.rereads) Trace.ErrorInfo.yields fun _ _ => trivial
  · exact roundTrips (fun q _ => q.rereads) Run.Parameter.yields fun _ _ => trivial
  · exact roundTrips (fun s _ => s.rereads) Run.Summary.yields fun _ _ => trivial
  · exact roundTrips (fun r _ => r.rereads) Run.TestReport.yields fun _ _ => trivial
  · exact roundTrips (fun r _ => r.rereads) Run.CoverageReport.yields fun _ _ => trivial
  · exact roundTrips (fun c _ => c.rereads) Config.yields fun _ _ => trivial
  · exact roundTrips (fun q _ => q.rereads) JobProperty.yields fun _ _ => trivial
  · exact roundTrips (fun e _ => e.rereads) Run.StepEvent.yields fun _ _ => trivial
  · refine roundTrips (fun e he => Emission.rereads he) Emission.yields fun e he => ?_
    cases he with
    | object h => exact Emission.inRange_of_finite h
  · exact roundTrips (fun s hs => PassSummary.rereads hs) PassSummary.yields
      fun _ => PassSummary.inRange_of_finite
  · exact roundTrips (fun r hr => RunReport.rereads hr) RunReport.yields
      fun _ => RunReport.inRange_of_finite

/-- A run with texts that need escapes, a cancelled branch and three doubles. -/
def measuredRun : Run.Event where
  run := {
    jobFullName := "shop/checkout"
    buildId := "41"
    duration := 90500
    result := .unstable
    parameters := [⟨"note", some "say \"é\"\n"⟩, ⟨"channel", none⟩] }
  trace := some [{
    id := 4294967295
    kind := .scopeEnd
    displayName := ""
    startTime := -7
    error := some ⟨none⟩
    markers := [.parallelBranch]
    parents := [] }]
  tests := none
  coverage := some ⟨[⟨.line, 81.25, 0, 100, 13, 16⟩]⟩

/-- An event with tests and coverage, whose durations and percentages are numbers. -/
theorem codecs_roundTrip_measured : Run.Event.codec.ReadsBack measuredRun := by
  have hparameters : Fits (· ∈ [81.25, 0, 100])
      (Run.Parameter.codec.list.write measuredRun.run.parameters) :=
    .item (.member (.string _) <| .member (.string _) <| .object nofun) <|
      .item (.member (.string _) <| .member .null <| .object nofun) <| .array nofun
  have htrace : Fits (· ∈ [81.25, 0, 100])
      (Trace.Node.codec.list.option.write measuredRun.trace) :=
    .item (.member (.integer (by decide) (by decide)) <| .member (.string _) <|
        .member (.string _) <| .member (.integer (by decide) (by decide)) <|
        .member (.member .null <| .object nofun) <|
        .member (.item (.member (.string _) <| .object nofun) <| .array nofun) <|
        .object nofun) <|
      .array nofun
  have hcoverage : Fits (· ∈ [81.25, 0, 100])
      (Run.CoverageReport.codec.option.write measuredRun.coverage) :=
    .member (.item (.member (.string _) <| .member (.float (.head _)) <|
        .member (.float (.tail _ (.head _))) <|
        .member (.float (.tail _ (.tail _ (.head _)))) <|
        .member (.integer (by decide) (by decide)) <|
        .member (.integer (by decide) (by decide)) <| .object nofun) <|
      .array nofun) <| .object nofun
  have hfits : Fits (· ∈ [81.25, 0, 100]) (Run.Event.codec.write measuredRun) :=
    .member (.string _) <| .member (.string _) <|
      .member (.integer (by decide) (by decide)) <| .member (.string _) <|
      .member hparameters <| .member htrace <| .member hcoverage <| .object nofun
  have hfinite : ∀ x ∈ [81.25, 0, 100], Float.isFinite x = true := by decide +kernel
  have hreads : ∀ x ∈ [81.25, 0, 100], Codec.float.ReadsBack x := by
    intro x hx
    apply readsBack_of_toOption
    revert x
    decide +kernel
  exact codecs_roundTrip.1.1 measuredRun trivial (fun x hx => hfinite x (hfits.of_holds hx))
    fun x hx _ => hreads x (hfits.of_holds hx)

end BuildMetrics
