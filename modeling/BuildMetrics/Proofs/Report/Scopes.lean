import BuildMetrics.Proofs.Report.Template
import BuildMetrics.Proofs.Trace.Cut
import BuildMetrics.Report.Passes

/-!
# The records of the scopes of a run

What the pass over the scopes makes of a trace.

* `pipelineRecords_nested`: a nested trace that was recorded to its end gives, in whatever order its
  nodes are listed, one record for each scope that is measured, with its name, its duration and its
  status, and no error;
* `pipelineRecords_of_no_error`: whatever the nodes, where no error is reported each start that
  leads to no cycle was matched once. A start that leads to a cycle is never met, and this is no
  error: `pipelineRecords_self_parent`.
-/

namespace BuildMetrics

open Run Trace

variable {ctx : RunContext}

/-- The record of a scope if it is measured. -/
def scopeRecord? (ctx : RunContext) (s : Scope) : Option Record :=
  (ScopeClass.ofStart? s.start).map (scopeRecord ctx s)

/-- Where the matcher found scopes only, each that is measured has its record. -/
theorem scopeRecords_ok (found : List Scope) :
    scopeRecords ctx (found.map .ok) = (found.filterMap (scopeRecord? ctx), none) := by
  induction found with
  | nil => rfl
  | cons s found ih =>
    rw [List.map_cons, scopeRecords, ih, List.filterMap_cons, scopeRecord?]
    cases ScopeClass.ofStart? s.start with
    | none => rfl
    | some c => rfl

/-- An error of the matcher is an error of the pass. -/
theorem scopeRecords_error {results : List (Except TraceError Scope)} {err : TraceError}
    (h : .error err ∈ results) : (scopeRecords ctx results).2 ≠ none := by
  induction results with
  | nil => exact absurd h List.not_mem_nil
  | cons r results ih =>
    cases r with
    | error e => exact Option.some_ne_none e
    | ok s =>
      have hrest : .error err ∈ results := by simpa using h
      rw [scopeRecords]
      cases ScopeClass.ofStart? s.start with
      | none => exact ih hrest
      | some c => exact ih hrest

section

variable {nodes : List Node} {g : Graph}

/-- The pass reads what the matcher yields on the walk of the graph. -/
theorem pipelineRecords_eq (hg : Graph.ofNodes nodes = .ok g) :
    pipelineRecords ctx nodes = scopeRecords ctx (Matcher.all [] g.walk).1 := by
  rw [pipelineRecords, hg]

/-- Where the matcher reports no error, neither does the pass. -/
theorem pipelineRecords_eq_filterMap {found : List Scope} (hg : Graph.ofNodes nodes = .ok g)
    (hall : (Matcher.all [] g.walk).1 = found.map .ok) :
    pipelineRecords ctx nodes = (found.filterMap (scopeRecord? ctx), none) := by
  rw [pipelineRecords_eq hg, hall, scopeRecords_ok]

end

/-! ## What is due for a scope -/

/-- The node begins a stage: it has a label and no name of a thread. -/
def Trace.Node.BeginsStage (n : Node) : Prop :=
  (∃ text, .label text ∈ n.markers) ∧ ∀ name, .threadName name ∉ n.markers

/-- The name of a branch: the display puts the word for it in front of the name, or it does not. -/
inductive BranchName : String → String → Prop where
  /-- with the word in front -/
  | led (name : String) : BranchName ("Branch: " ++ name) name
  /-- without it -/
  | plain (name : String) (h : ∀ rest, name ≠ "Branch: " ++ rest) : BranchName name name

/-- A scope that such a node opens is measured, under these two segments. -/
inductive MeasuredAs (n : Node) : String → String → Prop where
  /-- a stage -/
  | stage (h : n.BeginsStage) : MeasuredAs n "stage" (Name.category n.displayName)
  /-- a branch that is no stage -/
  | parallel (h : ¬ n.BeginsStage) (hbranch : .parallelBranch ∈ n.markers) {name : String}
    (hname : BranchName n.displayName name) : MeasuredAs n "parallel" (Name.category name)

/-- The record that is due for a scope. -/
structure IsDue (config : Config) (now : Millis) (run : Summary) (s : Scope) (r : Record) :
    Prop where
  /-- its name has the path, the job and what the scope is measured as -/
  name : ∃ kind name, MeasuredAs s.start kind name ∧
    r.name =
      config.jobMetricsPrefix ++ "." ++ Name.job run.jobFullName ++ "." ++ kind ++ "." ++ name
  /-- its value is the time from the start to the end, or the nearest one in 64 bits -/
  value : ∃ duration : Millis, r.value = duration.toFloat ∧
    duration.toInt = max (-9223372036854775808)
      (min 9223372036854775807 (s.ending.startTime.toInt - s.start.startTime.toInt))
  /-- its time is that of the report -/
  time : r.time = now
  /-- its source is that of the configuration -/
  source : r.source = config.sourceName
  /-- its tags are how the scope ended and the number of the run -/
  tags : ∃ status text, EndsAs s.ending.error status ∧ status.Reads text ∧
    r.tags.entries = [("Status", text), ("Build Number", run.buildId)]
  /-- it keeps to the limits of the configuration -/
  limits : r.tags.limits = config.tagLimits

section

variable {n : Node} {c : ScopeClass} {kind name : String}

/-- The two markers tell whether a node begins a stage. -/
theorem Trace.Node.beginsStage_iff : n.BeginsStage ↔ (n.hasLabel && !n.hasThreadName) = true := by
  have hlabel : n.hasLabel = true ↔ ∃ text, .label text ∈ n.markers := by
    rw [Node.hasLabel, List.any_eq_true]
    constructor
    · rintro ⟨marker, hmem, hmarker⟩
      cases marker with
      | label text => exact ⟨text, hmem⟩
      | threadName name => cases hmarker
      | parallelBranch => cases hmarker
    · exact fun ⟨text, hmem⟩ => ⟨_, hmem, rfl⟩
  have hthread : n.hasThreadName = false ↔ ∀ name, .threadName name ∉ n.markers := by
    rw [Node.hasThreadName, List.any_eq_false]
    constructor
    · exact fun hall name hmem => hall _ hmem rfl
    · intro hnone marker hmem
      cases marker with
      | label text => exact Bool.false_ne_true
      | threadName name => exact absurd hmem (hnone name)
      | parallelBranch => exact Bool.false_ne_true
  rw [Bool.and_eq_true, Bool.not_eq_true', hlabel, hthread]
  rfl

/-- The marker of a branch tells whether a node begins one. -/
theorem Trace.Node.isParallelBranch_iff :
    n.isParallelBranch = true ↔ .parallelBranch ∈ n.markers := by
  rw [Node.isParallelBranch, List.any_eq_true]
  constructor
  · rintro ⟨marker, hmem, hmarker⟩
    cases marker with
    | label text => cases hmarker
    | threadName name => cases hmarker
    | parallelBranch => exact hmem
  · exact fun hmem => ⟨_, hmem, rfl⟩

/-- The word in front of the name of a branch is dropped. -/
theorem branchName_led (rest : String) : branchName ("Branch: " ++ rest) = rest := by
  have hlead : "Branch: ".toList.isPrefixOf ("Branch: " ++ rest).toList = true := by
    rw [String.toList_append]
    exact List.isPrefixOf_iff_prefix.mpr (List.prefix_append _ _)
  simp only [branchName]
  rw [if_pos hlead, String.toList_append, List.drop_left, String.ofList_toList]

/-- A name without the word in front stays as it is. -/
theorem branchName_plain {display : String} (h : ∀ rest, display ≠ "Branch: " ++ rest) :
    branchName display = display := by
  have hlead : ¬ "Branch: ".toList.isPrefixOf display.toList = true := by
    intro hlead
    obtain ⟨rest, hrest⟩ := List.isPrefixOf_iff_prefix.mp hlead
    refine h (String.ofList rest) (String.toList_injective ?_)
    rw [← hrest, String.toList_append, String.toList_ofList (l := rest)]
  simp only [branchName]
  rw [if_neg hlead]

/-- A branch has one name. -/
theorem branchName_iff {display : String} :
    BranchName display name ↔ branchName display = name := by
  constructor
  · rintro (_ | ⟨_, hplain⟩)
    · exact branchName_led name
    · exact branchName_plain hplain
  · rintro rfl
    by_cases hled : ∃ rest, display = "Branch: " ++ rest
    · obtain ⟨rest, rfl⟩ := hled
      rw [branchName_led]
      exact .led rest
    · have hplain : ∀ rest, display ≠ "Branch: " ++ rest := fun rest heq => hled ⟨rest, heq⟩
      rw [branchName_plain hplain]
      exact .plain display hplain

/-- The class of a scope tells what it is measured as. -/
theorem measuredAs_iff :
    MeasuredAs n kind name ↔ ∃ c, ScopeClass.ofStart? n = some c ∧ c.kind.name = kind ∧
      c.name = name := by
  constructor
  · rintro (hstage | ⟨hstage, hbranch, hname⟩)
    · refine ⟨⟨.stage, Name.category n.displayName⟩, ?_, rfl, rfl⟩
      rw [ScopeClass.ofStart?, if_pos (Node.beginsStage_iff.mp hstage)]
    · refine ⟨⟨.parallel, Name.category (branchName n.displayName)⟩, ?_, rfl, ?_⟩
      · rw [ScopeClass.ofStart?, if_neg (Node.beginsStage_iff.not.mp hstage),
          if_pos (Node.isParallelBranch_iff.mpr hbranch)]
      · rw [branchName_iff.mp hname]
  · rintro ⟨c, hc, rfl, rfl⟩
    rw [ScopeClass.ofStart?] at hc
    split at hc
    · next hstage =>
      cases hc
      exact .stage (Node.beginsStage_iff.mpr hstage)
    · next hstage =>
      split at hc
      · next hbranch =>
        cases hc
        exact .parallel (Node.beginsStage_iff.not.mpr hstage) (Node.isParallelBranch_iff.mp hbranch)
          (branchName_iff.mpr rfl)
      · cases hc

end

section

variable {given config : Config} {now : Millis} {run : Summary} {property : Option JobProperty}
  {s : Scope}

/-- The record of a scope that is measured is the one that is due. -/
theorem isDue_scopeRecord (h : given.normalized = .ok config) (hs : s.IsFaithful) {c : ScopeClass}
    (hc : ScopeClass.ofStart? s.start = some c) :
    IsDue config now run s (scopeRecord ⟨run, .ofConfig config now, config, property⟩ s c) := by
  have hlimits : 2 ≤ config.tagLimits.maxTags.toNat :=
    Nat.le_of_succ_le (Config.fixedTags_le_of_normalized h)
  have hpath : config.jobMetricsPrefix ≠ "" := Config.jobMetricsPrefix_ne_empty h
  rw [scopeRecord, Template.record, Template.metricName_eq hpath, Template.statusTags_eq hlimits]
  refine ⟨⟨_, _, measuredAs_iff.mpr ⟨c, hc, rfl, rfl⟩, ?_⟩, ⟨s.duration, rfl, ?_⟩, rfl, rfl,
    ⟨s.status, _, ?_, s.status.reads_name, rfl⟩, rfl⟩
  · simp only [RunContext.job, Template.ofConfig, String.append_assoc]
  · rw [hs]
    exact Millis.toInt_clamp _
  · rw [hs]
    exact endsAs_ofError _

/-- What is due for a scope is one record. -/
theorem IsDue.unique {r r' : Record} (h : IsDue config now run s r)
    (h' : IsDue config now run s r') : r = r' := by
  obtain ⟨kind, name, hmeasured, hname⟩ := h.name
  obtain ⟨kind', name', hmeasured', hname'⟩ := h'.name
  obtain ⟨c, hc, rfl, rfl⟩ := measuredAs_iff.mp hmeasured
  obtain ⟨c', hc', rfl, rfl⟩ := measuredAs_iff.mp hmeasured'
  obtain rfl : c = c' := Option.some.inj (hc.symm.trans hc')
  obtain ⟨duration, hvalue, hduration⟩ := h.value
  obtain ⟨duration', hvalue', hduration'⟩ := h'.value
  obtain rfl : duration = duration' := Int64.toInt_inj.mp (hduration.trans hduration'.symm)
  obtain ⟨status, text, hends, hreads, hentries⟩ := h.tags
  obtain ⟨status', text', hends', hreads', hentries'⟩ := h'.tags
  rw [hreads.eq_name, hends.eq_ofError] at hentries
  rw [hreads'.eq_name, hends'.eq_ofError] at hentries'
  have htags : r.tags = r'.tags :=
    TagSet.ext (hentries.trans hentries'.symm) (h.limits.trans h'.limits.symm)
  obtain ⟨htime, htime'⟩ : r.time = now ∧ r'.time = now := ⟨h.time, h'.time⟩
  obtain ⟨hsource, hsource'⟩ := And.intro h.source h'.source
  obtain ⟨rname, rvalue, rtime, rsource, rtags⟩ := r
  obtain ⟨rname', rvalue', rtime', rsource', rtags'⟩ := r'
  simp only at hname hname' hvalue hvalue' htime htime' hsource hsource' htags
  rw [hname, hname', hvalue, hvalue', htime, htime', hsource, hsource', htags]

/-- A scope has a record if and only if one is due for it, and has that one. -/
theorem scopeRecord?_eq_some_iff (h : given.normalized = .ok config) (hs : s.IsFaithful)
    {r : Record} :
    scopeRecord? ⟨run, .ofConfig config now, config, property⟩ s = some r ↔
      IsDue config now run s r := by
  rw [scopeRecord?]
  constructor
  · intro hr
    obtain ⟨c, hc, rfl⟩ := Option.map_eq_some_iff.mp hr
    exact isDue_scopeRecord h hs hc
  · intro hdue
    obtain ⟨kind, name, hmeasured, -⟩ := hdue.name
    obtain ⟨c, hc, -, -⟩ := measuredAs_iff.mp hmeasured
    rw [hc, Option.map_some, (isDue_scopeRecord h hs hc).unique hdue]

end

/-! ## Nested traces -/

/-- **A complete trace gives the record that is due for each scope that is measured**, and no other
records. -/
theorem pipelineRecords_nested {given config : Config} (hconfig : given.normalized = .ok config)
    (t : NestedTrace) {nodes : List Node} (hnodes : nodes.Perm t.nodes) (run : Summary)
    (now : Millis) (property : Option JobProperty) :
    ∃ (records : List Record) (due : Scope → Option Record),
      pipelineRecords ⟨run, .ofConfig config now, config, property⟩ nodes = (records, none) ∧
      records.Perm (t.scopes.filterMap due) ∧
      ∀ s ∈ t.scopes, ∀ r, due s = some r ↔ IsDue config now run s r := by
  have hcut : Cut t nodes := Cut.of_perm hnodes
  obtain ⟨found, hall, hfound⟩ := hcut.all_perm hnodes.symm.subset
  refine ⟨_, scopeRecord? ⟨run, .ofConfig config now, config, property⟩, ?_, hfound.filterMap _,
    fun s hs r => scopeRecord?_eq_some_iff hconfig (t.isFaithful_of_mem_scopes hs)⟩
  exact pipelineRecords_eq_filterMap hcut.ofNodes_eq (congrArg Prod.fst hall)

/-- A stage of a run. -/
def stagedScope : Scope :=
  .between { bareNode .scopeStart 1 [] with displayName := "Build", markers := [.label "Build"] }
    { bareNode .scopeEnd 7 [6] with startTime := 600 }

/-- The parallel step in it. -/
def stagedFork : Scope := .between (bareNode .scopeStart 2 [1]) (bareNode .scopeEnd 6 [5])

/-- The one branch of that step, which was aborted. -/
def stagedBranch : Scope :=
  .between
    { bareNode .scopeStart 3 [2] with displayName := "Branch: Linux", markers := [.parallelBranch] }
    { bareNode .scopeEnd 5 [4] with startTime := 500, error := some ⟨none⟩ }

/-- The run with these scopes. -/
def stagedTrace : NestedTrace where
  blocks :=
    [.group .inSequence stagedScope.start
      [.group .sideBySide stagedFork.start
        [.group .inSequence stagedBranch.start [.step (bareNode .other 4 [3])] stagedBranch.ending]
        stagedFork.ending]
      stagedScope.ending]
  recorded := by
    simp [Arranged, Block.Recorded, Node.IsAt, Arrangement.exits, lastExit, Block.exit, bareNode,
      stagedScope, stagedFork, stagedBranch]
  distinct := by decide

/-- The run as a whole. -/
def stagedRun : Summary := ⟨"Nightly", "5", 700, .aborted, []⟩

/-- What the passes know of it. -/
def stagedContext : RunContext :=
  ⟨stagedRun, .ofConfig Config.default.cleaned 0, Config.default.cleaned, none⟩

/-- That run, listed backwards. The parallel step has no record. -/
theorem pipelineRecords_nested_staged :
    Config.default.normalized = .ok Config.default.cleaned ∧
    stagedTrace.nodes.reverse.Perm stagedTrace.nodes ∧
    ∃ stage branch,
      (∃ records, pipelineRecords stagedContext stagedTrace.nodes.reverse = (records, none) ∧
        records.Perm [stage, branch]) ∧
      stage.name = "wjp.job.nightly.stage.build" ∧
      stage.tags.entries = [("Status", "SUCCESS"), ("Build Number", "5")] ∧
      branch.name = "wjp.job.nightly.parallel.linux" ∧
      branch.tags.entries = [("Status", "ABORTED"), ("Build Number", "5")] := by
  have hconfig : Config.default.normalized = .ok Config.default.cleaned :=
    Config.normalized_eq_ok_iff.mpr ⟨by decide, rfl⟩
  have hnodes : stagedTrace.nodes.reverse.Perm stagedTrace.nodes := List.reverse_perm _
  obtain ⟨records, due, hpass, hperm, hdue⟩ :=
    pipelineRecords_nested hconfig stagedTrace hnodes stagedRun 0 none
  have hscopes : stagedTrace.scopes = [stagedScope, stagedFork, stagedBranch] := rfl
  rw [hscopes] at hperm hdue
  let stage : Record :=
    ⟨"wjp.job.nightly.stage.build", Int64.toFloat 600, 0, "",
      ⟨[("Status", "SUCCESS"), ("Build Number", "5")], by decide, Config.default.tagLimits⟩⟩
  let branch : Record :=
    ⟨"wjp.job.nightly.parallel.linux", Int64.toFloat 500, 0, "",
      ⟨[("Status", "ABORTED"), ("Build Number", "5")], by decide, Config.default.tagLimits⟩⟩
  have hlabel : .label "Build" ∈ stagedScope.start.markers := List.mem_singleton_self _
  have hstage : due stagedScope = some stage := (hdue _ (by simp) _).mpr
    { name := ⟨"stage", Name.category "Build",
        .stage ⟨⟨"Build", hlabel⟩, by simp [stagedScope]⟩, by decide⟩
      value := ⟨600, rfl, by decide⟩
      time := rfl
      source := rfl
      tags := ⟨.success, "SUCCESS", .success, .success, rfl⟩
      limits := rfl }
  have hunlabelled : ¬ stagedBranch.start.BeginsStage := by
    rintro ⟨⟨text, hlabel⟩, -⟩
    simp [stagedBranch] at hlabel
  have hbranch : due stagedBranch = some branch := (hdue _ (by simp) _).mpr
    { name := ⟨"parallel", Name.category "Linux",
        .parallel hunlabelled (List.mem_singleton_self _) (.led "Linux"), by decide⟩
      value := ⟨500, rfl, by decide⟩
      time := rfl
      source := rfl
      tags := ⟨.aborted, "ABORTED", .aborted, .aborted, rfl⟩
      limits := rfl }
  have hfork : due stagedFork = none := by
    refine Option.eq_none_iff_forall_ne_some.mpr fun r hr => ?_
    obtain ⟨kind, name, hmeasured, -⟩ := ((hdue _ (by simp) r).mp hr).name
    cases hmeasured with
    | stage hstage =>
      obtain ⟨⟨text, hlabel⟩, -⟩ := hstage
      simp [stagedFork, bareNode] at hlabel
    | parallel hstage hmark hname => simp [stagedFork, bareNode] at hmark
  refine ⟨hconfig, hnodes, stage, branch, ⟨records, hpass, ?_⟩, rfl, rfl, rfl, rfl⟩
  simpa only [List.filterMap_cons, hstage, hfork, hbranch, List.filterMap_nil] using hperm

/-! ## Traces of any shape -/

/-- The node opens a scope that is measured. -/
def Trace.Node.isMeasured (n : Node) : Bool := n.isStart && (ScopeClass.ofStart? n).isSome

/-- There is a record for each start of a scope that is measured. -/
theorem length_filterMap_scopeRecord? {found : List Scope} {starts : List Node}
    (h : (found.map Scope.start).Perm (starts.filter Node.isStart)) :
    (found.filterMap (scopeRecord? ctx)).length = starts.countP Node.isMeasured := by
  have hisSome : (fun s => (scopeRecord? ctx s).isSome) =
      (fun n => (ScopeClass.ofStart? n).isSome) ∘ Scope.start := by
    funext s
    rw [scopeRecord?, Option.isSome_map, Function.comp_apply]
  calc (found.filterMap (scopeRecord? ctx)).length
      = (found.map Scope.start).countP fun n => (ScopeClass.ofStart? n).isSome := by
        rw [List.length_filterMap_eq_countP, hisSome, List.countP_map]
    _ = (starts.filter Node.isStart).countP fun n => (ScopeClass.ofStart? n).isSome :=
        h.countP_eq _
    _ = starts.countP Node.isMeasured := by
        rw [List.countP_filter]
        refine List.countP_congr fun n _ => ?_
        rw [Node.isMeasured, Bool.and_comm]

/-- **Nothing but what leads to a cycle is lost.** Where the pass reports no error, the nodes form a
graph, each start that leads to no cycle was matched once, and each of these that is measured has
its record. So all starts that are measured have a record if and only if none of them leads to a
cycle. -/
theorem pipelineRecords_of_no_error {nodes : List Node} {records : List Record}
    (h : pipelineRecords ctx nodes = (records, none)) :
    ∃ g : Graph, ∃ found : List Scope, Graph.ofNodes nodes = .ok g ∧
      (Matcher.all [] g.walk).1 = found.map .ok ∧
      (∀ n ∈ nodes, n.isStart = true →
        (found.map Scope.start).count n = if g.LeadsToCycle n.id then 0 else 1) ∧
      (records.length = nodes.countP fun n => n.isMeasured && ¬ g.LeadsToCycle n.id) ∧
      (records.length = nodes.countP Node.isMeasured ↔
        ∀ n ∈ nodes, n.isMeasured = true → ¬ g.LeadsToCycle n.id) := by
  cases hg : Graph.ofNodes nodes with
  | error e =>
    rw [pipelineRecords, hg] at h
    cases h
  | ok g =>
    rw [pipelineRecords_eq hg] at h
    obtain rfl := Graph.nodes_of_ofNodes hg
    have hnone : ∀ err, .error err ∉ (Matcher.all [] g.walk).1 := by
      intro err herr
      exact scopeRecords_error herr (congrArg Prod.snd h)
    obtain ⟨found, hall, hstarts⟩ := Matcher.all_eq_of_no_error hnone
    obtain rfl : found.filterMap (scopeRecord? ctx) = records := by
      rw [hall, scopeRecords_ok] at h
      exact congrArg Prod.fst h
    have hperm : (found.map Scope.start).Perm
        ((g.nodes.filter fun n => ¬ g.LeadsToCycle n.id).filter Node.isStart) :=
      hstarts ▸ g.walk_perm.filter _
    have hlength : (found.filterMap (scopeRecord? ctx)).length =
        g.nodes.countP fun n => n.isMeasured && ¬ g.LeadsToCycle n.id := by
      rw [length_filterMap_scopeRecord? hperm, List.countP_filter]
    refine ⟨g, found, rfl, hall, fun n hn hstart => ?_, hlength, ?_⟩
    · -- a start is met once or, if it leads to a cycle, never
      rw [hperm.count_eq, List.count_filter hstart]
      by_cases hcycle : g.LeadsToCycle n.id
      · rw [if_pos hcycle]
        exact List.count_eq_zero_of_not_mem (by simp [hcycle])
      · rw [if_neg hcycle, List.count_filter (by simp [hcycle])]
        exact List.count_eq_one_of_mem g.nodup_nodes hn
    · -- counting the starts that lead to no cycle counts all starts if there are no others
      have hcomm : (g.nodes.countP fun n => n.isMeasured && ¬ g.LeadsToCycle n.id) =
          (g.nodes.filter Node.isMeasured).countP fun n => ¬ g.LeadsToCycle n.id := by
        rw [List.countP_filter]
        exact List.countP_congr fun n _ => by rw [Bool.and_comm]
      have hall : g.nodes.countP Node.isMeasured = (g.nodes.filter Node.isMeasured).length :=
        List.countP_eq_length_filter
      rw [hlength, hcomm, hall, List.countP_eq_length]
      simp

/-- A stage whose start names itself as its parent. -/
def selfParent : Node :=
  { bareNode .scopeStart 1 [1] with displayName := "Build", markers := [.label "Build"] }

/-- A stage that is recorded beside it. -/
def besideSelfParent : Scope :=
  .between { bareNode .scopeStart 2 [] with displayName := "Test", markers := [.label "Test"] }
    (bareNode .scopeEnd 3 [2])

/-- The graph of both. -/
def selfParentGraph : Graph :=
  ⟨[selfParent, besideSelfParent.start, besideSelfParent.ending], by decide,
    by simp [selfParent, besideSelfParent, bareNode]⟩

/-- The walk meets the two nodes of the stage that is recorded beside it. -/
theorem walkIds_selfParentGraph : selfParentGraph.walkIds = [3, 2] := by
  have hcount : selfParentGraph.nodeCount = 3 := rfl
  have hheads : selfParentGraph.heads = [3] := by
    simp [selfParentGraph, selfParent, besideSelfParent, bareNode, Graph.heads, Graph.sorted,
      Graph.ids, Graph.childEdges]
  have hstart : selfParentGraph.parents 2 = [] := rfl
  have hending : selfParentGraph.parents 3 = [2] := rfl
  have hedges : selfParentGraph.childEdges 2 = [3] := by decide
  rw [Graph.walkIds, Walk.ofGraph, hcount, hheads]
  simp [Walk.run, Walk.next?, Walk.countDown, hstart, hending, hedges, Graph.sorted, List.eraseReps,
    List.eraseRepsBy, List.eraseRepsBy.loop]

/-- Beside a start on a cycle, another stage has its record, and there is no error. -/
theorem pipelineRecords_of_no_error_beside :
    pipelineRecords stagedContext selfParentGraph.nodes =
      ([besideSelfParent].filterMap (scopeRecord? stagedContext), none) ∧
    ∃ g : Graph, ∃ found : List Scope, Graph.ofNodes selfParentGraph.nodes = .ok g ∧
      (Matcher.all [] g.walk).1 = found.map .ok ∧ g.LeadsToCycle selfParent.id ∧
      (found.map Scope.start).count selfParent = 0 := by
  have hpass : pipelineRecords stagedContext selfParentGraph.nodes =
      ([besideSelfParent].filterMap (scopeRecord? stagedContext), none) := by
    have hg : Graph.ofNodes selfParentGraph.nodes = .ok selfParentGraph :=
      Graph.ofNodes_eq_ok selfParentGraph.distinct selfParentGraph.closed
    refine pipelineRecords_eq_filterMap hg ?_
    rw [Graph.walk, walkIds_selfParentGraph]
    rfl
  obtain ⟨g, found, hg, hall, hmatched, -, -⟩ := pipelineRecords_of_no_error hpass
  have hcycle : g.LeadsToCycle selfParent.id := by
    have hedge : Edge g.nodes selfParent.id selfParent.id := by
      rw [Graph.nodes_of_ofNodes hg]
      decide
    exact ⟨_, .refl, .single hedge⟩
  refine ⟨hpass, g, found, hg, hall, hcycle, ?_⟩
  rw [hmatched _ List.mem_cons_self (by decide), if_pos hcycle]

/-- A start on a cycle is lost without an error. -/
theorem pipelineRecords_self_parent :
    selfParent.isMeasured = true ∧ pipelineRecords stagedContext [selfParent] = ([], none) ∧
    ¬ ∀ (ctx : RunContext) (nodes : List Node), (pipelineRecords ctx nodes).2 = none →
      (pipelineRecords ctx nodes).1.length = nodes.countP Node.isMeasured := by
  have hmeasured : selfParent.isMeasured = true := by decide
  have hlost : pipelineRecords stagedContext [selfParent] = ([], none) := by
    let g : Graph := ⟨[selfParent], by decide, by simp [selfParent, bareNode]⟩
    have hg : Graph.ofNodes [selfParent] = .ok g := Graph.ofNodes_eq_ok g.distinct g.closed
    have hwalk : g.walk = [] := by
      refine List.eq_nil_iff_forall_not_mem.mpr fun n hn => ?_
      obtain ⟨hmem, hcycle⟩ := Graph.mem_walk.mp hn
      obtain rfl := List.mem_singleton.mp hmem
      have hedge : Edge g.nodes selfParent.id selfParent.id := by decide
      exact hcycle ⟨_, .refl, .single hedge⟩
    have hall : (Matcher.all [] g.walk).1 = [].map .ok := by
      rw [hwalk]
      rfl
    exact pipelineRecords_eq_filterMap hg hall
  refine ⟨hmeasured, hlost, fun h => ?_⟩
  have hlength := h stagedContext [selfParent] (by rw [hlost])
  rw [hlost, List.countP_singleton, if_pos hmeasured] at hlength
  cases hlength

end BuildMetrics
