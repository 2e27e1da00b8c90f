import BuildMetrics.Trace.Scope
import Mathlib.Data.List.Basic
import Mathlib.Data.List.Infix
import Mathlib.Data.List.Nodup

/-!
# Matching brackets

What the matcher makes of a list of nodes.

* `Matcher.all_eq_of_no_error`: whatever the list, a matcher that reports no error has found one
  scope for each start, in the order of the starts;
* `Bracketed.all_append`: on a list in which ends and starts are brackets, and inside of each pair
  is such a list again, it finds exactly these pairs and leaves the stack as it was;
* `Brackets.bracketed`: a list is of this form if the scopes are known and what lies between the
  end and the start of each scope holds the other scopes as a whole or not at all;
* `Brackets.all_eq`, `Brackets.all_unclosed`: if some of the scopes have no end in such a list,
  the matcher finds right pairs up to the first start of one of these, and nothing is waiting then.
-/

namespace BuildMetrics.Trace

/-- The node opens a scope. -/
def Node.isStart (n : Node) : Bool := n.kind = .scopeStart

@[simp] theorem Node.isStart_iff {n : Node} : n.isStart = true ↔ n.kind = .scopeStart := by
  simp [Node.isStart]

/-- The node closes a scope. -/
def Node.isEnd (n : Node) : Bool := n.kind = .scopeEnd

@[simp] theorem Node.isEnd_iff {n : Node} : n.isEnd = true ↔ n.kind = .scopeEnd := by
  simp [Node.isEnd]

namespace Matcher

variable {waiting : List PendingEnd} {rest : List Node} {n : Node} {e : PendingEnd}

theorem all_other (hn : n.kind = .other) : all waiting (n :: rest) = all waiting rest := by
  simp only [all, hn]

/-- An end begins to wait. -/
theorem all_end (hn : n.kind = .scopeEnd) :
    all waiting (n :: rest) = all (.ofNode n :: waiting) rest := by
  simp only [all, hn]

/-- A start for which no end is waiting is an error, and the last thing that is told. -/
theorem all_start_nil (hn : n.kind = .scopeStart) :
    all [] (n :: rest) = ([.error (.unmatchedScopeStart n.id)], []) := by
  simp only [all, hn]

/-- A start takes the innermost end that is waiting. -/
theorem all_start_cons (hn : n.kind = .scopeStart) :
    all (e :: waiting) (n :: rest) =
      (.ok (e.close n) :: (all waiting rest).1, (all waiting rest).2) := by
  simp only [all, hn]

/-- What the matcher yields one after the other is what it yields in all. -/
theorem all_eq_next (waiting : List PendingEnd) (nodes : List Node) :
    all waiting nodes =
      match next waiting nodes with
      | (none, m) => ([], m.waiting)
      | (some found, m) => (found :: (all m.waiting m.rest).1, (all m.waiting m.rest).2) := by
  induction nodes generalizing waiting with
  | nil => rfl
  | cons n rest ih =>
    cases hn : n.kind with
    | other => simpa only [all, next, hn] using ih waiting
    | scopeEnd => simpa only [all, next, hn] using ih (.ofNode n :: waiting)
    | scopeStart =>
      cases waiting with
      | nil => simp only [all, next, hn]
      | cons e waiting => simp only [all, next, hn]

/-- **No start is left out.** A matcher that reports no error has found one scope for each start
that it has read. -/
theorem all_eq_of_no_error {nodes : List Node} (h : ∀ err, .error err ∉ (all waiting nodes).1) :
    ∃ found : List Scope, (all waiting nodes).1 = found.map .ok ∧
      found.map Scope.start = nodes.filter Node.isStart := by
  induction nodes generalizing waiting with
  | nil => exact ⟨[], rfl, rfl⟩
  | cons n rest ih =>
    cases hn : n.kind with
    | other =>
      rw [all_other hn] at h ⊢
      obtain ⟨found, hall, hstarts⟩ := ih h
      refine ⟨found, hall, ?_⟩
      rw [hstarts, List.filter_cons_of_neg (by simp [hn])]
    | scopeEnd =>
      rw [all_end hn] at h ⊢
      obtain ⟨found, hall, hstarts⟩ := ih h
      refine ⟨found, hall, ?_⟩
      rw [hstarts, List.filter_cons_of_neg (by simp [hn])]
    | scopeStart =>
      cases waiting with
      | nil =>
        rw [all_start_nil hn] at h
        exact absurd (List.mem_singleton_self _) (h _)
      | cons e waiting =>
        rw [all_start_cons hn] at h ⊢
        have hrest : ∀ err, .error err ∉ (all waiting rest).1 :=
          fun err herr => h err (List.mem_cons_of_mem _ herr)
        obtain ⟨found, hall, hstarts⟩ := ih hrest
        refine ⟨e.close n :: found, by rw [hall, List.map_cons], ?_⟩
        rw [List.map_cons, hstarts, List.filter_cons_of_pos (by simp [hn])]
        rfl

end Matcher

/-! ## Ways to end -/

/-- How a scope ends whose end has such an error: without one it succeeds; with one that has a cause
it fails, and with one that has none it was cancelled. -/
inductive EndsAs : Option ErrorInfo → ScopeStatus → Prop where
  /-- there is no error -/
  | success : EndsAs none .success
  /-- there is a cause -/
  | failure (cause : String) : EndsAs (some ⟨some cause⟩) .failure
  /-- there is an error without a cause -/
  | aborted : EndsAs (some ⟨none⟩) .aborted

/-- The status that is made of an error is the one for it. -/
theorem endsAs_ofError (error : Option ErrorInfo) : EndsAs error (.ofError error) := by
  cases error with
  | none => exact .success
  | some info =>
    obtain ⟨cause⟩ := info
    cases cause with
    | none => exact .aborted
    | some cause => exact .failure cause

/-- There is one status for an error. -/
theorem EndsAs.eq_ofError {error : Option ErrorInfo} {status : ScopeStatus}
    (h : EndsAs error status) : status = .ofError error := by
  cases h <;> rfl

/-- The text for how a scope ended. -/
inductive ScopeStatus.Reads : ScopeStatus → String → Prop where
  /-- it succeeded -/
  | success : Reads .success "SUCCESS"
  /-- it failed -/
  | failure : Reads .failure "FAILURE"
  /-- it was cancelled -/
  | aborted : Reads .aborted "ABORTED"

/-- The text that is written for a status is the one for it. -/
theorem ScopeStatus.reads_name (status : ScopeStatus) : status.Reads status.name := by
  cases status with
  | success => exact .success
  | failure => exact .failure
  | aborted => exact .aborted

theorem ScopeStatus.Reads.eq_name {status : ScopeStatus} {text : String} (h : status.Reads text) :
    text = status.name := by
  cases h <;> rfl

/-! ## Lists of brackets -/

/-- What is told of a scope is read off its nodes. -/
def Scope.IsFaithful (s : Scope) : Prop := s = .between s.start s.ending

theorem Scope.isFaithful_between (start ending : Node) : (Scope.between start ending).IsFaithful :=
  rfl

/-- Ends and starts of the scopes are the brackets in the list of nodes; the scopes are listed in
the order of their starts. -/
inductive Bracketed : List Node → List Scope → Prop where
  /-- there is nothing in the list -/
  | nil : Bracketed [] []
  /-- a plain step is no bracket -/
  | step {n : Node} {nodes : List Node} {found : List Scope} (hn : n.kind = .other)
      (later : Bracketed nodes found) : Bracketed (n :: nodes) found
  /-- a scope, what lies within it, and what follows -/
  | scope {s : Scope} {inside nodes : List Node} {inner found : List Scope}
      (hs : s.start.kind = .scopeStart) (he : s.ending.kind = .scopeEnd) (htold : s.IsFaithful)
      (within : Bracketed inside inner) (later : Bracketed nodes found) :
      Bracketed (s.ending :: inside ++ s.start :: nodes) (inner ++ s :: found)

namespace Bracketed

variable {nodes : List Node} {found : List Scope}

/-- The matcher finds the scopes of a list of brackets, whatever is waiting before and whatever
follows, and touches nothing that was waiting. -/
theorem all_append (h : Bracketed nodes found) (waiting : List PendingEnd) (rest : List Node) :
    Matcher.all waiting (nodes ++ rest) =
      (found.map .ok ++ (Matcher.all waiting rest).1, (Matcher.all waiting rest).2) := by
  induction h generalizing waiting rest with
  | nil => rfl
  | step hn _ ih => rw [List.cons_append, Matcher.all_other hn, ih]
  | @scope s inside nodes inner found hs he htold _ _ ihwithin ihlater =>
    have hclose : (PendingEnd.ofNode s.ending).close s.start = s := htold.symm
    have hassoc : s.ending :: inside ++ s.start :: nodes ++ rest =
        s.ending :: (inside ++ (s.start :: (nodes ++ rest))) := by simp
    rw [hassoc, Matcher.all_end he, ihwithin, Matcher.all_start_cons hs, hclose, ihlater]
    simp

/-- The scopes of a list of brackets are listed in the order of their starts. -/
theorem map_start (h : Bracketed nodes found) :
    found.map Scope.start = nodes.filter Node.isStart := by
  induction h with
  | nil => rfl
  | step hn _ ih => rw [ih, List.filter_cons_of_neg (by simp [hn])]
  | scope hs he _ _ _ ihwithin ihlater => simp [hs, he, ihwithin, ihlater]

end Bracketed

/-! ## Lists with known scopes -/

/-- The nodes hold each of the scopes as a whole or not at all. -/
def Closed (scopes : List Scope) (nodes : List Node) : Prop :=
  ∀ s ∈ scopes, s.start ∈ nodes ↔ s.ending ∈ nodes

/-- Scopes that have no node in common. -/
structure Separate (scopes : List Scope) : Prop where
  /-- a scope is told by its start -/
  start_inj : ∀ s ∈ scopes, ∀ s' ∈ scopes, s.start = s'.start → s = s'
  /-- a scope is told by its end -/
  ending_inj : ∀ s ∈ scopes, ∀ s' ∈ scopes, s.ending = s'.ending → s = s'
  /-- scopes begin with starts -/
  start_kind : ∀ s ∈ scopes, s.start.kind = .scopeStart
  /-- scopes end with ends -/
  ending_kind : ∀ s ∈ scopes, s.ending.kind = .scopeEnd
  /-- what is told of a scope is read off its nodes -/
  faithful : ∀ s ∈ scopes, s.IsFaithful

namespace Separate

variable {scopes : List Scope} {s s' : Scope}

/-- No node is the start of one scope and the end of another. -/
theorem start_ne_ending (h : Separate scopes) (hs : s ∈ scopes) (hs' : s' ∈ scopes) :
    s.start ≠ s'.ending := by
  intro heq
  have hkind := h.start_kind s hs
  rw [heq, h.ending_kind s' hs'] at hkind
  cases hkind

/-- If all nodes hold scopes as a whole, and so does one part of what is left without the nodes of
a scope, then so does the other part. -/
theorem closed_rest (h : Separate scopes) (hs : s ∈ scopes) {all one other : List Node}
    (hperm : all.Perm (s.ending :: s.start :: (one ++ other))) (hnodup : all.Nodup)
    (hall : Closed scopes all) (hone : Closed scopes one) : Closed scopes other := by
  intro s' hs'
  have hnodup' := hperm.nodup_iff.mp hnodup
  simp only [List.nodup_cons, List.nodup_append, List.mem_cons, List.mem_append,
    not_or] at hnodup'
  obtain ⟨⟨-, -, hending⟩, ⟨-, hstart⟩, -, -, hdisjoint⟩ := hnodup'
  by_cases heq : s' = s
  · subst heq
    exact ⟨fun hmem => absurd hmem hstart, fun hmem => absurd hmem hending⟩
  · -- the nodes of another scope are in one of the two parts
    have hmem : ∀ n, n ≠ s.ending → n ≠ s.start → (n ∈ all ↔ n ∈ one ∨ n ∈ other) := by
      intro n hne hne'
      simp [hperm.mem_iff, hne, hne']
    have hclosed := hall s' hs'
    rw [hmem _ (h.start_ne_ending hs' hs) fun he => heq (h.start_inj s' hs' s hs he),
      hmem _ (fun he => heq (h.ending_inj s' hs' s hs he)) (h.start_ne_ending hs hs').symm]
      at hclosed
    constructor
    · intro hother
      refine (hclosed.mp (Or.inr hother)).resolve_left fun hin => ?_
      exact hdisjoint _ ((hone s' hs').mpr hin) _ hother rfl
    · intro hother
      refine (hclosed.mpr (Or.inr hother)).resolve_left fun hin => ?_
      exact hdisjoint _ ((hone s' hs').mp hin) _ hother rfl

end Separate

/-- The brackets among the nodes belong to the scopes, and a scope with an end among them is open
from there to its start. -/
structure Brackets (scopes : List Scope) (nodes : List Node) : Prop extends Separate scopes where
  /-- no node occurs twice -/
  nodup : nodes.Nodup
  /-- every start begins a scope -/
  exists_start : ∀ n ∈ nodes, n.kind = .scopeStart → ∃ s ∈ scopes, s.start = n
  /-- every end ends a scope -/
  exists_ending : ∀ n ∈ nodes, n.kind = .scopeEnd → ∃ s ∈ scopes, s.ending = n
  /-- between its end and its start a scope holds other scopes as a whole -/
  nest : ∀ s ∈ scopes, s.ending ∈ nodes → ∃ before inside after,
    nodes = before ++ s.ending :: inside ++ s.start :: after ∧ Closed scopes inside

namespace Brackets

variable {scopes : List Scope} {nodes : List Node}

/-- A node occurs at one place only. -/
theorem split_unique {n : Node} {before after before' after' : List Node}
    (h : (before ++ n :: after).Nodup) (heq : before ++ n :: after = before' ++ n :: after') :
    before = before' ∧ after = after' := by
  have hnot : n ∉ before ++ after :=
    (List.nodup_cons.mp (List.perm_middle.nodup_iff.mp h)).1
  rw [List.mem_append, not_or] at hnot
  obtain ⟨hbefore, -, hafter⟩ := (List.append_cons_inj_of_notMem hnot.1 hnot.2).mp heq
  exact ⟨hbefore, hafter⟩

/-- What comes behind `a` but not behind `b` lies between them. -/
theorem mem_inside {a b u : Node} {part rest before inside after : List Node}
    (h : (part ++ u :: rest).Nodup)
    (heq : part ++ u :: rest = before ++ a :: inside ++ b :: after) (ha : a ∈ part) (hb : b ∉ part)
    (hne : b ≠ u) : u ∈ inside := by
  rcases List.append_eq_append_iff.mp heq with ⟨c, hc, hrest⟩ | ⟨c, hc, hrest⟩
  · cases c with
    | nil => exact absurd (List.cons.inj hrest).1.symm hne
    | cons x c =>
      obtain rfl := (List.cons.inj hrest).1
      obtain ⟨front, back, rfl⟩ := List.append_of_mem ha
      have hsplit : before ++ a :: inside = front ++ a :: (back ++ u :: c) := by
        rw [hc, List.append_assoc, List.cons_append]
      have hnodup : (before ++ a :: inside).Nodup := by
        rw [heq] at h
        exact h.of_append_left
      rw [(split_unique hnodup hsplit).2]
      simp
  · cases c with
    | nil => exact absurd (List.cons.inj hrest).1 hne
    | cons x c =>
      obtain rfl := (List.cons.inj hrest).1
      exact absurd (by simp [hc]) hb

/-- Where a scope has an end, the end comes before the start. -/
theorem ending_mem_before (h : Brackets scopes nodes) {s : Scope} (hs : s ∈ scopes)
    (he : s.ending ∈ nodes) {before after : List Node} (heq : nodes = before ++ s.start :: after) :
    s.ending ∈ before := by
  obtain ⟨before', inside, after', heq', -⟩ := h.nest s hs he
  have hsplit : before ++ s.start :: after = (before' ++ s.ending :: inside) ++ s.start :: after' :=
    heq ▸ heq'
  rw [(split_unique (heq ▸ h.nodup) hsplit).1]
  simp

/-! ### Parts of a list

A part of the list that holds scopes as a whole is read from its front. What stands there tells how
the rest falls into parts of the same form. -/

section Parts

variable {part : List Node} (h : Brackets scopes nodes)
include h

/-- Behind a plain step. -/
theorem closed_of_cons_other {n : Node} (hn : n.kind = .other)
    (hclosed : Closed scopes (n :: part)) : Closed scopes part := by
  intro s hs
  have hstart : s.start ≠ n := by
    rintro rfl
    rw [h.start_kind s hs] at hn
    cases hn
  have hending : s.ending ≠ n := by
    rintro rfl
    rw [h.ending_kind s hs] at hn
    cases hn
  simpa [hstart, hending] using hclosed s hs

/-- No start stands in front: its end would come before it and yet in the same part. -/
theorem not_closed_of_cons_start {s : Scope} (hs : s ∈ scopes)
    (hpart : s.start :: part <:+: nodes) : ¬ Closed scopes (s.start :: part) := by
  intro hclosed
  have hending : s.ending ∈ s.start :: part := (hclosed s hs).mp List.mem_cons_self
  have hmem : s.ending ∈ nodes := hpart.subset hending
  obtain ⟨before, after, heq⟩ := hpart
  have hwhole : nodes = before ++ s.start :: (part ++ after) := by simp [← heq]
  have hbefore : s.ending ∈ before := h.ending_mem_before hs hmem hwhole
  have hlater : s.ending ∈ s.start :: (part ++ after) := by
    rw [← List.cons_append]
    exact List.mem_append_left _ hending
  have hnodup := hwhole ▸ h.nodup
  exact (List.nodup_append.mp hnodup).2.2 _ hbefore _ hlater rfl

/-- Behind an end come the inside of its scope, its start, and what follows. -/
theorem exists_split_of_cons_ending {s : Scope} (hs : s ∈ scopes)
    (hpart : s.ending :: part <:+: nodes) (hclosed : Closed scopes (s.ending :: part)) :
    ∃ inside later, part = inside ++ s.start :: later ∧
      (inside <:+: nodes ∧ Closed scopes inside) ∧ later <:+: nodes ∧ Closed scopes later := by
  have hstart : s.start ∈ part := by
    have hfirst := (hclosed s hs).mpr List.mem_cons_self
    exact (List.mem_cons.mp hfirst).resolve_left (h.start_ne_ending hs hs)
  have hmem : s.ending ∈ nodes := hpart.subset List.mem_cons_self
  obtain ⟨inside, later, rfl⟩ := List.append_of_mem hstart
  obtain ⟨before, after, heq⟩ := hpart
  have hwhole : nodes = before ++ s.ending :: (inside ++ s.start :: (later ++ after)) := by
    simp [← heq]
  have hnodup := hwhole ▸ h.nodup
  obtain ⟨before', inside', after', hnest, hinside⟩ := h.nest s hs hmem
  have hinside : Closed scopes inside := by
    -- both splits of the list are at the same end and at the same start
    have hsplit : before ++ s.ending :: (inside ++ s.start :: (later ++ after)) =
        before' ++ s.ending :: (inside' ++ s.start :: after') := by
      rw [← hwhole, hnest, List.append_assoc, List.cons_append]
    have hrest := (split_unique hnodup hsplit).2
    rwa [(split_unique hnodup.of_append_right.of_cons hrest).1]
  have hlater : Closed scopes later := by
    have hnodup' : (s.ending :: (inside ++ s.start :: later)).Nodup := by
      rw [← heq] at h
      exact h.nodup.of_append_left.of_append_right
    have hperm : (s.ending :: (inside ++ s.start :: later)).Perm
        (s.ending :: s.start :: (inside ++ later)) := List.perm_middle.cons s.ending
    exact h.closed_rest hs hperm hnodup' hclosed hinside
  refine ⟨inside, later, rfl, ⟨?_, hinside⟩, ?_, hlater⟩
  · exact ⟨before ++ [s.ending], s.start :: (later ++ after), by simp [hwhole]⟩
  · exact ⟨before ++ s.ending :: (inside ++ [s.start]), after, by simp [hwhole]⟩

/-- A part of the list that holds scopes as a whole is itself a list of brackets. -/
theorem bracketed (hpart : part <:+: nodes) (hclosed : Closed scopes part) :
    ∃ found, Bracketed part found ∧ ∀ s ∈ found, s ∈ scopes := by
  -- what lies within the first scope and what lies behind it are both shorter
  induction hlen : part.length using Nat.strong_induction_on generalizing part with
  | _ k ih =>
    subst hlen
    cases part with
    | nil => exact ⟨[], .nil, fun s hs => absurd hs List.not_mem_nil⟩
    | cons n part =>
      have hmem : n ∈ nodes := hpart.subset List.mem_cons_self
      cases hn : n.kind with
      | other =>
        have hsegment : part <:+: nodes := (List.suffix_cons n part).isInfix.trans hpart
        have hrest := h.closed_of_cons_other hn hclosed
        obtain ⟨found, hfound, hmem⟩ := ih part.length (by simp) hsegment hrest rfl
        exact ⟨found, .step hn hfound, hmem⟩
      | scopeStart =>
        obtain ⟨s, hs, rfl⟩ := h.exists_start n hmem hn
        exact absurd hclosed (h.not_closed_of_cons_start hs hpart)
      | scopeEnd =>
        obtain ⟨s, hs, rfl⟩ := h.exists_ending n hmem hn
        obtain ⟨inside, later, rfl, ⟨hsegment, hinside⟩, hsegment', hlater⟩ :=
          h.exists_split_of_cons_ending hs hpart hclosed
        have hlength : inside.length + later.length <
            (s.ending :: (inside ++ s.start :: later)).length := by
          simp only [List.length_cons, List.length_append]
          omega
        obtain ⟨inner, hinner, hmem⟩ := ih inside.length (by omega) hsegment hinside rfl
        obtain ⟨found, hfound, hmem'⟩ := ih later.length (by omega) hsegment' hlater rfl
        have hs' := h.start_kind s hs
        have he := h.ending_kind s hs
        refine ⟨inner ++ s :: found, .scope hs' he (h.faithful s hs) hinner hfound, fun x hx => ?_⟩
        rcases List.mem_append.mp hx with hx | hx
        · exact hmem x hx
        · rcases List.mem_cons.mp hx with rfl | hx
          · exact hs
          · exact hmem' x hx

end Parts

/-! ## All of a list -/

/-- A list in which every start has its end is matched without an error, every start with the end
of its own scope, and nothing is left waiting. -/
theorem all_eq (h : Brackets scopes nodes)
    (hended : ∀ s ∈ scopes, s.start ∈ nodes → s.ending ∈ nodes) :
    ∃ found : List Scope, Matcher.all [] nodes = (found.map .ok, []) ∧
      (∀ s ∈ found, s ∈ scopes) ∧ found.map Scope.start = nodes.filter Node.isStart := by
  have hclosed : Closed scopes nodes := by
    refine fun s hs => ⟨hended s hs, fun he => ?_⟩
    obtain ⟨before, inside, after, heq, -⟩ := h.nest s hs he
    simp [heq]
  obtain ⟨found, hfound, hmem⟩ := h.bracketed (List.infix_refl nodes) hclosed
  refine ⟨found, ?_, hmem, hfound.map_start⟩
  simpa [Matcher.all] using hfound.all_append [] []

/-- What comes before the first start of a scope without an end holds scopes as a whole. -/
theorem closed_before_open (h : Brackets scopes nodes) {s : Scope} (hs : s ∈ scopes)
    (hopen : s.ending ∉ nodes) {part rest : List Node} (heq : nodes = part ++ s.start :: rest)
    (hended : ∀ s' ∈ scopes, s'.start ∈ part → s'.ending ∈ nodes) : Closed scopes part := by
  intro s' hs'
  constructor
  · intro hmem
    obtain ⟨before, after, rfl⟩ := List.append_of_mem hmem
    have hsplit : nodes = before ++ s'.start :: (after ++ s.start :: rest) := by simp [heq]
    exact List.mem_append_left _ (h.ending_mem_before hs' (hended s' hs' hmem) hsplit)
  · intro hmem
    have hnodes : s'.ending ∈ nodes := by simp [heq, hmem]
    obtain ⟨before, inside, after, hnest, hinside⟩ := h.nest s' hs' hnodes
    by_contra hnot
    -- then the open start lies within the scope, and so does its end
    have hne : s'.start ≠ s.start := by
      intro he
      obtain rfl := h.start_inj s' hs' s hs he
      exact hopen hnodes
    have hmem' : s.start ∈ inside := mem_inside (heq ▸ h.nodup) (heq ▸ hnest) hmem hnot hne
    have hending : s.ending ∈ inside := (hinside s hs).mp hmem'
    exact hopen (by simp [hnest, hending])

/-- Where a scope has not ended, the matcher stops at the start of such a scope. All scopes that it
has found until then are right, and nothing is waiting. -/
theorem all_unclosed (h : Brackets scopes nodes)
    (hopen : ∃ s ∈ scopes, s.start ∈ nodes ∧ s.ending ∉ nodes) :
    ∃ found : List Scope, ∃ s ∈ scopes, s.start ∈ nodes ∧ s.ending ∉ nodes ∧
      Matcher.all [] nodes =
        (found.map .ok ++ [.error (.unmatchedScopeStart s.start.id)], []) ∧
      ∀ s ∈ found, s ∈ scopes := by
  let isOpen (n : Node) : Bool := scopes.any fun s => s.start = n ∧ s.ending ∉ nodes
  obtain ⟨s₀, hs₀, hstart₀, hending₀⟩ := hopen
  have hfind : (nodes.find? isOpen).isSome := by
    rw [List.find?_isSome]
    exact ⟨s₀.start, hstart₀, by simpa [isOpen] using ⟨s₀, hs₀, rfl, hending₀⟩⟩
  obtain ⟨u, hu⟩ := Option.isSome_iff_exists.mp hfind
  -- the first start of a scope without an end, and all that is met before it
  obtain ⟨hisOpen, part, rest, heq, hpart⟩ := List.find?_eq_some_iff_append.mp hu
  obtain ⟨s, hs, rfl, hending⟩ : ∃ s ∈ scopes, s.start = u ∧ s.ending ∉ nodes := by
    simpa [isOpen] using hisOpen
  have hended : ∀ s' ∈ scopes, s'.start ∈ part → s'.ending ∈ nodes := by
    intro s' hs' hmem
    by_contra hnot
    have hfalse := hpart s'.start hmem
    simp only [isOpen, Bool.not_eq_true', List.any_eq_false] at hfalse
    exact hfalse s' hs' (by simp [hnot])
  have hclosed : Closed scopes part := h.closed_before_open hs hending heq hended
  obtain ⟨found, hfound, hmem⟩ := h.bracketed ⟨[], s.start :: rest, by simp [heq]⟩ hclosed
  refine ⟨found, s, hs, by simp [heq], hending, ?_, hmem⟩
  rw [heq, hfound.all_append, Matcher.all_start_nil (h.start_kind s hs)]

end Brackets

end BuildMetrics.Trace
