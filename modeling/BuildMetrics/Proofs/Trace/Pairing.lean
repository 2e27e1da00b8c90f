import BuildMetrics.Proofs.Trace.Edges
import BuildMetrics.Proofs.Trace.Matching

/-!
# Matching any list of nodes

Ends and starts need not be brackets. What decides is whether a part in front of the list has more
starts than ends: until then the matcher finds a scope for each start, and there it stops.

* `Waiting`: the ends that wait, with all that was read since each of them balanced;
* `Waiting.all_append`: reading on keeps this, and finds a scope at the place of each start;
* `Matcher.yields_all`: calling for one scope after the other yields what the matcher finds in all;
* `Matcher.yields_ofNodes`: what it yields for any list of nodes.
-/

namespace BuildMetrics.Trace

variable {nodes part read rest inside : List Node} {waiting : List PendingEnd} {n e : Node}

/-! ## Counting starts and ends -/

/-- How many scopes start among the nodes. -/
def startCount (nodes : List Node) : Nat := nodes.countP Node.isStart

/-- How many scopes end among the nodes. -/
def endCount (nodes : List Node) : Nat := nodes.countP Node.isEnd

@[simp] theorem startCount_append (nodes nodes' : List Node) :
    startCount (nodes ++ nodes') = startCount nodes + startCount nodes' :=
  List.countP_append

@[simp] theorem endCount_append (nodes nodes' : List Node) :
    endCount (nodes ++ nodes') = endCount nodes + endCount nodes' :=
  List.countP_append

@[simp] theorem startCount_nil : startCount [] = 0 := rfl

@[simp] theorem endCount_nil : endCount [] = 0 := rfl

theorem startCount_cons (n : Node) (nodes : List Node) :
    startCount (n :: nodes) = startCount nodes + if n.kind = .scopeStart then 1 else 0 := by
  simp [startCount, List.countP_cons]

theorem endCount_cons (n : Node) (nodes : List Node) :
    endCount (n :: nodes) = endCount nodes + if n.kind = .scopeEnd then 1 else 0 := by
  simp [endCount, List.countP_cons]

/-- No part in front of the nodes has more starts than ends. -/
def Covered (nodes : List Node) : Prop :=
  ∀ part, part <+: nodes → startCount part ≤ endCount part

instance : DecidablePred Covered := fun nodes =>
  decidable_of_iff (∀ part ∈ nodes.inits, startCount part ≤ endCount part) (by simp [Covered])

/-- As many scopes start as end, and none starts before it has ended. -/
structure Balanced (nodes : List Node) : Prop where
  /-- ends come first -/
  covered : Covered nodes
  /-- each end has its start -/
  same : startCount nodes = endCount nodes

namespace Covered

theorem nil : Covered [] := by
  intro part hpart
  rw [List.prefix_nil.mp hpart]
  exact Nat.le_refl 0

/-- What is read first of covered nodes is covered. -/
theorem of_prefix (h : Covered nodes) (hpart : part <+: nodes) : Covered part :=
  fun front hfront => h front (hfront.trans hpart)

/-- A list is covered if the part before its last node is, and it has no more starts than ends. -/
theorem concat (h : Covered nodes) (hle : startCount (nodes ++ [n]) ≤ endCount (nodes ++ [n])) :
    Covered (nodes ++ [n]) := by
  intro part hpart
  rcases List.prefix_concat_iff.mp hpart with rfl | hpart
  · exact hle
  · exact h part hpart

/-- Nodes that are covered by themselves are so behind others. -/
theorem append (h : Covered nodes) (hpart : Covered part) : Covered (nodes ++ part) := by
  intro front hfront
  rcases List.prefix_or_prefix_of_prefix hfront (List.prefix_append nodes part) with
    hle | ⟨back, rfl⟩
  · exact h front hle
  · have hnodes := h nodes (List.prefix_refl nodes)
    have hback := hpart back ((List.prefix_append_right_inj nodes).mp hfront)
    simp only [startCount_append, endCount_append]
    omega

end Covered

/-- Where nodes are not covered, there is a first start that makes them so. -/
theorem exists_split_of_not_covered (h : ¬ Covered nodes) :
    ∃ part n rest, nodes = part ++ n :: rest ∧ Covered part ∧ ¬ Covered (part ++ [n]) := by
  induction nodes using List.reverseRecOn with
  | nil => exact absurd Covered.nil h
  | append_singleton nodes n ih =>
    by_cases hnodes : Covered nodes
    · exact ⟨nodes, n, [], rfl, hnodes, h⟩
    · obtain ⟨part, n', rest, rfl, hpart, hn'⟩ := ih hnodes
      exact ⟨part, n', rest ++ [n], by simp, hpart, hn'⟩

/-- A start needs an end that has no start yet. -/
theorem not_covered_concat (hn : n.kind = .scopeStart) (hsame : startCount nodes = endCount nodes) :
    ¬ Covered (nodes ++ [n]) := by
  intro h
  have hle := h _ (List.prefix_refl _)
  simp only [startCount_append, endCount_append, startCount_cons, endCount_cons, hn, hsame] at hle
  exact Nat.not_succ_le_self _ hle

/-- A node that ends what was covered is a start, and all before it is balanced. -/
theorem Covered.of_not_concat (h : Covered nodes) (hn : ¬ Covered (nodes ++ [n])) :
    n.kind = .scopeStart ∧ startCount nodes = endCount nodes := by
  have hle := h nodes (List.prefix_refl nodes)
  have hlt : ¬ startCount (nodes ++ [n]) ≤ endCount (nodes ++ [n]) := fun hle => hn (h.concat hle)
  simp only [startCount_append, endCount_append, startCount_cons, endCount_cons,
    startCount_nil, endCount_nil] at hlt
  cases hkind : n.kind with
  | other =>
    simp only [hkind, reduceCtorEq, if_false] at hlt
    omega
  | scopeEnd =>
    simp only [hkind, reduceCtorEq, if_false, if_true] at hlt
    omega
  | scopeStart =>
    simp only [hkind, reduceCtorEq, if_false, if_true] at hlt
    exact ⟨rfl, by omega⟩

namespace Balanced

theorem nil : Balanced [] := ⟨.nil, rfl⟩

/-- Balanced nodes may be followed by balanced nodes. -/
theorem append (h : Balanced nodes) (hpart : Balanced part) : Balanced (nodes ++ part) := by
  refine ⟨h.covered.append hpart.covered, ?_⟩
  rw [startCount_append, endCount_append, h.same, hpart.same]

/-- A plain step. -/
theorem other (hn : n.kind = .other) : Balanced [n] := by
  have hsame : startCount [n] = endCount [n] := by simp [startCount_cons, endCount_cons, hn]
  exact ⟨Covered.nil.concat (Nat.le_of_eq hsame), hsame⟩

/-- An end, a start, and what is balanced between them. -/
theorem scope {s : Node} (he : e.kind = .scopeEnd) (hs : s.kind = .scopeStart)
    (h : Balanced inside) : Balanced (e :: inside ++ [s]) := by
  have hend : Covered [e] :=
    Covered.nil.concat (by simp [startCount_cons, endCount_cons, he])
  have hsame : startCount (e :: inside ++ [s]) = endCount (e :: inside ++ [s]) := by
    simp [startCount_cons, endCount_cons, he, hs, h.same]
  exact ⟨(hend.append h.covered).concat (Nat.le_of_eq hsame), hsame⟩

end Balanced

/-! ## Places of scopes -/

/-- Where a scope lies in a list: the places of its two nodes. -/
structure Span where
  /-- how many nodes come before the end -/
  ending : Nat
  /-- how many nodes come before the start -/
  start : Nat

/-- A scope found in a list: its end comes first, then nodes that are balanced, then its start. What
is told of how it ended and how long it took belongs to these two. -/
structure FoundAt (nodes : List Node) (p : Span) (s : Scope) : Prop where
  /-- an end opens it and a start closes it -/
  kinds : s.ending.kind = .scopeEnd ∧ s.start.kind = .scopeStart
  /-- both are at their places, the end first, and what lies between them is balanced -/
  split : ∃ before inside after, nodes = before ++ s.ending :: inside ++ s.start :: after ∧
    p.ending = before.length ∧ p.start = (before ++ s.ending :: inside).length ∧ Balanced inside
  /-- the end tells how it ended -/
  status : EndsAs s.ending.error s.status
  /-- the time between them, or the nearest one in 64 bits -/
  duration : s.duration.toInt = max (-9223372036854775808)
    (min 9223372036854775807 (s.ending.startTime.toInt - s.start.startTime.toInt))

/-- Scopes found among the nodes: one at each place of a start, in the order of the starts, and no
two with the same end. -/
def Paired (nodes : List Node) (found : List Scope) : Prop :=
  ∃ spans : List Span, List.Forall₂ (FoundAt nodes) spans found ∧
    spans.map Span.start = nodes.findIdxs Node.isStart ∧ (spans.map Span.ending).Nodup

namespace FoundAt

variable {p q : Span} {s t : Scope}

/-- A pair around balanced nodes is a scope at the places of its two nodes. -/
theorem of_split (hn : n.kind = .scopeStart) (he : e.kind = .scopeEnd) (hinside : Balanced inside)
    (before after : List Node) :
    FoundAt (before ++ e :: inside ++ n :: after)
      ⟨before.length, (before ++ e :: inside).length⟩ (.between n e) where
  kinds := ⟨he, hn⟩
  split := ⟨before, inside, after, rfl, rfl, rfl, hinside⟩
  status := endsAs_ofError _
  duration := Millis.toInt_clamp _

/-- Of two scopes with the same end none has its start behind that of the other: what lies between
would not be balanced. -/
theorem start_le_of_ending_eq (h : FoundAt nodes p s) (h' : FoundAt nodes q t)
    (heq : p.ending = q.ending) : q.start ≤ p.start := by
  obtain ⟨before, inside, after, rfl, hp, hstart, hinside⟩ := h.split
  obtain ⟨before', inside', after', hnodes, hq, hstart', hinside'⟩ := h'.split
  rw [hstart, hstart']
  by_contra hlt
  rw [List.append_assoc, List.append_assoc] at hnodes
  obtain ⟨rfl, hrest⟩ := List.append_inj hnodes (by rw [← hp, ← hq, heq])
  rw [List.cons_append, List.cons_append, List.cons.injEq] at hrest
  simp only [List.length_append, List.length_cons] at hlt
  -- the nearer start would lie inside, with nothing there to end it
  have hfront : inside ++ [s.start] <+: inside' := by
    have hpre : inside ++ [s.start] <+: inside ++ s.start :: after :=
      (List.prefix_append_right_inj inside).mpr ⟨after, rfl⟩
    rw [hrest.2] at hpre
    exact List.prefix_of_prefix_length_le hpre (List.prefix_append _ _) (by simp; omega)
  exact not_covered_concat h.kinds.2 hinside.same (hinside'.covered.of_prefix hfront)

/-- Scopes with the same end have the same start. -/
theorem start_eq_of_ending_eq (h : FoundAt nodes p s) (h' : FoundAt nodes q t)
    (heq : p.ending = q.ending) : p.start = q.start :=
  Nat.le_antisymm (start_le_of_ending_eq h' h heq.symm) (start_le_of_ending_eq h h' heq)

end FoundAt

/-- Scopes at the places of the starts have no end in common. -/
theorem Paired.of_forall₂ {spans : List Span} {found : List Scope}
    (h : List.Forall₂ (FoundAt nodes) spans found)
    (hstarts : spans.map Span.start = nodes.findIdxs Node.isStart) : Paired nodes found := by
  have hat : ∀ p ∈ spans, ∃ s, FoundAt nodes p s := by
    intro p hp
    obtain ⟨i, hi, rfl⟩ := List.getElem_of_mem hp
    have hlength : i < found.length := h.length_eq ▸ hi
    exact ⟨found[i], h.get hi hlength⟩
  have hnodup : (spans.map Span.start).Nodup := hstarts ▸ List.nodup_findIdxs
  refine ⟨spans, h, hstarts, List.Nodup.map_on ?_ (List.Nodup.of_map _ hnodup)⟩
  intro p hp q hq heq
  obtain ⟨s, hs⟩ := hat p hp
  obtain ⟨t, ht⟩ := hat q hq
  exact List.inj_on_of_nodup_map hnodup hp hq (hs.start_eq_of_ending_eq ht heq)

/-! ## Waiting ends -/

/-- The ends that are left waiting, the innermost first, when nodes have been read: what was read
before the first of them, and since each of them, is balanced. -/
inductive Waiting : List Node → List PendingEnd → Prop where
  /-- nothing is waiting -/
  | none {read : List Node} (hread : Balanced read) : Waiting read []
  /-- an end is waiting, and others did so before it came -/
  | ending {before inside : List Node} {waiting : List PendingEnd} {e : Node}
      (earlier : Waiting before waiting) (he : e.kind = .scopeEnd) (hinside : Balanced inside) :
      Waiting (before ++ e :: inside) (.ofNode e :: waiting)

namespace Waiting

/-- Reading what is balanced leaves the same ends waiting. -/
theorem append (h : Waiting read waiting) (hpart : Balanced part) :
    Waiting (read ++ part) waiting := by
  cases h with
  | none hread => exact .none (hread.append hpart)
  | ending earlier he hinside =>
    rw [List.append_assoc, List.cons_append]
    exact .ending earlier he (hinside.append hpart)

/-- An end waits when it has been read. -/
theorem concat_end (h : Waiting read waiting) (he : e.kind = .scopeEnd) :
    Waiting (read ++ [e]) (.ofNode e :: waiting) :=
  .ending h he .nil

/-- One end waits for each start that is missing. -/
theorem endCount_eq (h : Waiting read waiting) :
    endCount read = startCount read + waiting.length := by
  induction h with
  | none hread => exact hread.same.symm
  | ending _ he hinside ih =>
    simp [startCount_cons, endCount_cons, he, hinside.same, ih]
    omega

/-- As long as there is a start for none but the ends that were read, each start takes the innermost
end. -/
theorem all_append (h : Waiting read waiting) (hcovered : Covered (read ++ rest)) :
    ∃ (found : List Scope) (spans : List Span) (left : List PendingEnd),
      (∀ more, Matcher.all waiting (rest ++ more) =
        (found.map .ok ++ (Matcher.all left more).1, (Matcher.all left more).2)) ∧
      Waiting (read ++ rest) left ∧ List.Forall₂ (FoundAt (read ++ rest)) spans found ∧
      spans.map Span.start = rest.findIdxs Node.isStart read.length := by
  induction rest generalizing read waiting with
  | nil =>
    rw [List.append_nil]
    exact ⟨[], [], waiting, fun _ => rfl, h, .nil, rfl⟩
  | cons n rest ih =>
    have hsplit : read ++ n :: rest = read ++ [n] ++ rest := by simp
    rw [hsplit] at hcovered ⊢
    simp only [List.cons_append, List.findIdxs_cons]
    have hlength : (read ++ [n]).length = read.length + 1 := by simp
    cases hn : n.kind with
    | other =>
      obtain ⟨found, spans, left, hall, hleft, hfound, hspans⟩ :=
        ih (h.append (.other hn)) hcovered
      refine ⟨found, spans, left, fun more => ?_, hleft, hfound, ?_⟩
      · rw [Matcher.all_other hn, hall]
      · rw [hspans, hlength, if_neg (by simp [hn])]
    | scopeEnd =>
      obtain ⟨found, spans, left, hall, hleft, hfound, hspans⟩ :=
        ih (h.concat_end hn) hcovered
      refine ⟨found, spans, left, fun more => ?_, hleft, hfound, ?_⟩
      · rw [Matcher.all_end hn, hall]
      · rw [hspans, hlength, if_neg (by simp [hn])]
    | scopeStart =>
      cases h with
      | none hread =>
        -- the nodes up to this start are not covered
        have hprefix : read ++ [n] <+: read ++ [n] ++ rest := List.prefix_append _ _
        exact absurd (hcovered.of_prefix hprefix) (not_covered_concat hn hread.same)
      | @ending before inside waiting e earlier he hinside =>
        have hread : before ++ e :: inside ++ [n] = before ++ (e :: inside ++ [n]) := by simp
        have hnext : Waiting (before ++ e :: inside ++ [n]) waiting :=
          hread ▸ earlier.append (.scope he hn hinside)
        obtain ⟨found, spans, left, hall, hleft, hfound, hspans⟩ := ih hnext hcovered
        have hat : FoundAt (before ++ e :: inside ++ [n] ++ rest)
            ⟨before.length, (before ++ e :: inside).length⟩ (.between n e) := by
          rw [List.append_assoc _ [n], List.singleton_append]
          exact .of_split hn he hinside before rest
        refine ⟨.between n e :: found, _ :: spans, left, fun more => ?_, hleft,
          .cons hat hfound, ?_⟩
        · rw [Matcher.all_start_cons hn, hall]
          rfl
        · rw [List.map_cons, hspans, hlength, if_pos (by simp [hn])]

end Waiting

/-! ## Calls of a matcher -/

namespace Matcher

variable {m : Matcher} {results : List (Except TraceError Scope)} {left : List PendingEnd}

/-- The matcher behind so many calls. -/
def after (m : Matcher) : Nat → Matcher
  | 0 => m
  | calls + 1 => m.next?.2.after calls

/-- One call after the other gives these results, and from then on nothing; the ends that are left
stay waiting. -/
structure Yields (m : Matcher) (results : List (Except TraceError Scope))
    (left : List PendingEnd) : Prop where
  /-- what each call gives -/
  next : ∀ calls, (m.after calls).next?.1 = results[calls]?
  /-- a call that gives nothing leaves nothing to read -/
  ended : ∀ calls, results.length < calls → m.after calls = ⟨left, []⟩

/-- A matcher that yields nothing has read all nodes. -/
theorem rest_of_next_none {nodes : List Node} (h : (next waiting nodes).1 = none) :
    (next waiting nodes).2.rest = [] := by
  induction nodes generalizing waiting with
  | nil => rfl
  | cons n rest ih =>
    cases hn : n.kind with
    | other =>
      simp only [next, hn] at h ⊢
      exact ih h
    | scopeEnd =>
      simp only [next, hn] at h ⊢
      exact ih h
    | scopeStart => cases waiting <;> simp [next, hn] at h

/-- A call that gives nothing has read all there was. -/
theorem all_of_next?_none (h : m.next?.1 = none) :
    m.next?.2 = ⟨m.next?.2.waiting, []⟩ ∧ all m.waiting m.rest = ([], m.next?.2.waiting) := by
  have hrest : m.next?.2.rest = [] := rest_of_next_none h
  rw [all_eq_next]
  rw [next?] at h hrest ⊢
  generalize next m.waiting m.rest = call at h hrest ⊢
  obtain ⟨result, waiting, rest⟩ := call
  obtain rfl : result = none := h
  obtain rfl : rest = [] := hrest
  exact ⟨rfl, rfl⟩

/-- What comes next is the first of all that comes. -/
theorem all_of_next?_some {result : Except TraceError Scope} (h : m.next?.1 = some result) :
    all m.waiting m.rest =
      (result :: (all m.next?.2.waiting m.next?.2.rest).1,
        (all m.next?.2.waiting m.next?.2.rest).2) := by
  rw [all_eq_next]
  rw [next?] at h ⊢
  generalize next m.waiting m.rest = call at h ⊢
  obtain ⟨found, behind⟩ := call
  obtain rfl : found = some result := h
  rfl

@[simp] theorem after_of_rest_nil (waiting : List PendingEnd) (calls : Nat) :
    after ⟨waiting, []⟩ calls = ⟨waiting, []⟩ := by
  induction calls with
  | zero => rfl
  | succ calls ih => exact ih

/-- What a matcher yields call by call is what it finds in all. -/
theorem yields_all (m : Matcher) :
    Yields m (all m.waiting m.rest).1 (all m.waiting m.rest).2 := by
  constructor
  · intro calls
    induction calls generalizing m with
    | zero =>
      cases h : m.next?.1 with
      | none => simp [after, h, (all_of_next?_none h).2]
      | some result => simp [after, h, all_of_next?_some h]
    | succ calls ih =>
      rw [after, ih]
      cases h : m.next?.1 with
      | none =>
        obtain ⟨hrest, hall⟩ := all_of_next?_none h
        rw [hall, hrest]
        simp [all]
      | some result => rw [all_of_next?_some h, List.getElem?_cons_succ]
  · intro calls hcalls
    induction calls generalizing m with
    | zero => exact absurd hcalls (Nat.not_lt_zero _)
    | succ calls ih =>
      rw [after]
      cases h : m.next?.1 with
      | none =>
        obtain ⟨hrest, hall⟩ := all_of_next?_none h
        rw [hall, hrest, after_of_rest_nil]
      | some result =>
        rw [all_of_next?_some h] at hcalls ⊢
        exact ih _ (Nat.lt_of_succ_lt_succ hcalls)

/-- A matcher yields one list of results only. -/
theorem yields_iff : Yields m results left ↔ all m.waiting m.rest = (results, left) := by
  constructor
  · intro h
    have hresults : (all m.waiting m.rest).1 = results :=
      List.ext_getElem? fun calls => by rw [← m.yields_all.next, h.next]
    have hcalls : results.length < results.length + 1 := Nat.lt_succ_self _
    have hend : m.after (results.length + 1) = ⟨(all m.waiting m.rest).2, []⟩ :=
      m.yields_all.ended _ (by rw [hresults]; exact hcalls)
    rw [h.ended _ hcalls] at hend
    exact Prod.ext hresults (congrArg waiting hend).symm
  · intro h
    have hyields := m.yields_all
    rwa [h] at hyields

/-- Plain steps do not matter. -/
theorem all_filter (waiting : List PendingEnd) (nodes : List Node) :
    all waiting (nodes.filter (·.kind ≠ .other)) = all waiting nodes := by
  induction nodes generalizing waiting with
  | nil => rfl
  | cons n rest ih =>
    cases hn : n.kind with
    | other => rw [List.filter_cons_of_neg (by simp [hn]), all_other hn, ih]
    | scopeEnd => rw [List.filter_cons_of_pos (by simp [hn]), all_end hn, all_end hn, ih]
    | scopeStart =>
      rw [List.filter_cons_of_pos (by simp [hn])]
      cases waiting with
      | nil => rw [all_start_nil hn, all_start_nil hn]
      | cons e waiting => rw [all_start_cons hn, all_start_cons hn, ih]

/-- Nodes that are covered are matched without an error. -/
theorem all_of_covered (h : Covered nodes) : ∃ (found : List Scope) (left : List PendingEnd),
    (∀ more, all [] (nodes ++ more) = (found.map .ok ++ (all left more).1, (all left more).2)) ∧
      Paired nodes found ∧ endCount nodes = startCount nodes + left.length := by
  have hwaiting : Waiting [] [] := .none .nil
  have hcovered : Covered ([] ++ nodes) := h
  obtain ⟨found, spans, left, hall, hleft, hfound, hspans⟩ := hwaiting.all_append hcovered
  exact ⟨found, left, hall, .of_forall₂ hfound hspans, hleft.endCount_eq⟩

/-- **What a matcher makes of any list of nodes.** If no part in front of it has more starts than
ends, each start gets its end, and the ends that are too many are left. Otherwise this is so up to
the first start that no end is left for; that start is the last thing that is told, whatever follows
it. Plain steps may as well be left out. -/
theorem yields_ofNodes (nodes : List Node) :
    (Covered nodes → ∃ (found : List Scope) (left : List PendingEnd),
      Yields (ofNodes nodes) (found.map .ok) left ∧ Paired nodes found ∧
      endCount nodes = startCount nodes + left.length) ∧
    (¬ Covered nodes → ∃ (part rest : List Node) (n : Node) (found : List Scope),
      nodes = part ++ n :: rest ∧ Covered part ∧ ¬ Covered (part ++ [n]) ∧ Paired part found ∧
      ∀ other, Yields (ofNodes (part ++ n :: other))
        (found.map .ok ++ [.error (.unmatchedScopeStart n.id)]) []) ∧
    (∀ results left, Yields (ofNodes (nodes.filter (·.kind ≠ .other))) results left ↔
      Yields (ofNodes nodes) results left) := by
  refine ⟨fun h => ?_, fun h => ?_, fun results left => ?_⟩
  · obtain ⟨found, left, hall, hpaired, hcount⟩ := all_of_covered h
    refine ⟨found, left, yields_iff.mpr ?_, hpaired, hcount⟩
    have hall := hall []
    rwa [List.append_nil, all, List.append_nil] at hall
  · obtain ⟨part, n, rest, rfl, hpart, hn⟩ := exists_split_of_not_covered h
    obtain ⟨found, left, hall, hpaired, hcount⟩ := all_of_covered hpart
    obtain ⟨hkind, hsame⟩ := hpart.of_not_concat hn
    have hleft : left = [] := List.eq_nil_of_length_eq_zero (by omega)
    subst hleft
    refine ⟨part, rest, n, found, rfl, hpart, hn, hpaired, fun other => yields_iff.mpr ?_⟩
    rw [ofNodes, hall, all_start_nil hkind]
  · rw [yields_iff, yields_iff, ofNodes, ofNodes, all_filter]

/-- Two ends, their starts, and one start more, with other nodes between and behind them. -/
def unevenNodes : List Node :=
  [bareNode .scopeEnd 8 [], bareNode .scopeEnd 7 [], bareNode .other 6 [],
    bareNode .scopeStart 5 [], bareNode .scopeStart 4 [], bareNode .scopeStart 3 [],
    bareNode .scopeEnd 2 [], bareNode .scopeStart 1 []]

/-- The scopes before the start that has no end. -/
def unevenScopes : List Scope :=
  [.between (bareNode .scopeStart 5 []) (bareNode .scopeEnd 7 []),
    .between (bareNode .scopeStart 4 []) (bareNode .scopeEnd 8 [])]

/-- Nodes with more starts than ends, and two scopes before the start that finds no end. -/
theorem yields_ofNodes_uneven : ¬ Covered unevenNodes ∧
    (∃ part, part <+: unevenNodes ∧ Paired part unevenScopes) ∧
    Yields (ofNodes unevenNodes)
      (unevenScopes.map .ok ++ [.error (.unmatchedScopeStart 3)]) [] := by
  have huneven : ¬ Covered unevenNodes := by decide
  obtain ⟨part, rest, n, found, hnodes, -, -, hpaired, hyields⟩ :=
    (yields_ofNodes unevenNodes).2.1 huneven
  have hyields := hyields rest
  rw [← hnodes] at hyields
  have hresults : (found.map Except.ok ++ [.error (.unmatchedScopeStart n.id)] :
      List (Except TraceError Scope)) =
        unevenScopes.map .ok ++ [.error (.unmatchedScopeStart 3)] :=
    (congrArg Prod.fst (yields_iff.mp hyields)).symm
  have hfound : found = unevenScopes :=
    List.map_injective_iff.mpr (fun _ _ => Except.ok.inj) (List.append_inj' hresults rfl).1
  rw [hresults] at hyields
  exact ⟨huneven, ⟨part, ⟨n :: rest, hnodes.symm⟩, hfound ▸ hpaired⟩, hyields⟩

end Matcher

end BuildMetrics.Trace
