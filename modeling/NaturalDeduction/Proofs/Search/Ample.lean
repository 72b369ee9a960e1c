/-
Searches with ample budgets.

The nodes that can come up in a search are finitely many: they lie in a tree
whose branches end at the bound on lines.  A budget of expansions that covers
the size of this tree (`cost`) is never spent, and without an account of states
the search then visits the whole tree.  So it finds a proof if some node of the
tree finishes (`search_exhaustive`).

How large the budgets have to be is of no interest.  `Settings.Eventually m k P`
says that `P` holds of all settings with the bounds `m` and `k` on lines and
large enough budgets of expansions.

Main results: with ample budgets a search without an account of states finds
whatever is provable (`Provable.eventuallyProved`), and a node finishes exactly
when its formulas close a derivation (`eventually_finishes_iff`).
-/
import Mathlib.Algebra.GroupWithZero.Nat
import NaturalDeduction.Proofs.Search.Provable

namespace NaturalDeduction

/-! ### Large enough budgets -/

namespace Settings

/-- The settings with an account of states or without one. -/
def withDedupe (s : Settings) (dedupe : Bool) : Settings :=
  { s with dedupe := .bool dedupe }

/-- `P` holds of all settings with these bounds on lines and large enough
budgets. -/
def Eventually (m k : Nat) (P : Settings → Prop) : Prop :=
  ∃ N, ∀ s : Settings, s.maxLines = m → s.subMaxLines = k → N ≤ s.iterations →
    N ≤ s.subIterations → P s

namespace Eventually

variable {m k : Nat} {P Q : Settings → Prop}

theorem of_forall (h : ∀ s : Settings, s.maxLines = m → s.subMaxLines = k → P s) :
    Eventually m k P :=
  ⟨0, fun s hm hk _ _ => h s hm hk⟩

theorem mono (h : Eventually m k P)
    (himp : ∀ s : Settings, s.maxLines = m → s.subMaxLines = k → P s → Q s) :
    Eventually m k Q := by
  obtain ⟨N, hN⟩ := h
  exact ⟨N, fun s hm hk hi hj => himp s hm hk (hN s hm hk hi hj)⟩

theorem and (hP : Eventually m k P) (hQ : Eventually m k Q) :
    Eventually m k fun s => P s ∧ Q s := by
  obtain ⟨N, hN⟩ := hP
  obtain ⟨M, hM⟩ := hQ
  refine ⟨max N M, fun s hm hk hi hj => ⟨?_, ?_⟩⟩
  · exact hN s hm hk (by omega) (by omega)
  · exact hM s hm hk (by omega) (by omega)

theorem forall_mem {α : Type} {l : List α} {P : α → Settings → Prop}
    (h : ∀ a ∈ l, Eventually m k (P a)) : Eventually m k fun s => ∀ a ∈ l, P a s := by
  induction l with
  | nil => exact of_forall fun s _ _ => by simp
  | cons a l ih =>
    have hl := ih fun b hb => h b (List.mem_cons_of_mem a hb)
    exact ((h a List.mem_cons_self).and hl).mono fun s _ _ hs => List.forall_mem_cons.mpr hs

theorem iterations (N : Nat) : Eventually m k fun s => N ≤ s.iterations :=
  ⟨N, fun _ _ _ hi _ => hi⟩

/-- What large enough budgets give to any search they give to nested ones. -/
theorem nested (h : Eventually (min k m) (min k m) P) : Eventually m k fun s => P s.nested := by
  obtain ⟨N, hN⟩ := h
  refine ⟨N, fun s hm hk _ hj => hN s.nested ?_ ?_ hj hj⟩
  · rw [← hm, ← hk]
    rfl
  · rw [← hm, ← hk]
    rfl

end Eventually

end Settings

/-! ### The nodes of a search -/

namespace Node

variable {m k : Nat} {goal : Formula} {lines child last : List Line}

theorem length_lt_of_mem_children (h : child ∈ children goal lines) :
    lines.length < child.length := by
  obtain ⟨e, -, rfl⟩ := List.mem_map.mp h
  simp [Extension.lines]

/-- `last` comes up in a search for `goal` from `lines`, where only nodes with
at most `m` lines are expanded. -/
inductive Reach (m : Nat) (goal : Formula) : List Line → List Line → Prop
  | refl (lines : List Line) : Reach m goal lines lines
  | step {lines child last : List Line} (hlen : lines.length ≤ m)
      (hchild : child ∈ children goal lines) (h : Reach m goal child last) :
      Reach m goal lines last

namespace Reach

theorem length_le (h : Reach m goal lines last) : lines.length ≤ last.length := by
  induction h with
  | refl => exact Nat.le_refl _
  | step _ hchild _ ih =>
    exact Nat.le_of_lt (Nat.lt_of_lt_of_le (length_lt_of_mem_children hchild) ih)

theorem tail (h : Reach m goal lines last) (hlen : last.length ≤ m)
    (hchild : child ∈ children goal last) : Reach m goal lines child := by
  induction h with
  | refl => exact .step hlen hchild (.refl child)
  | step hlen' hchild' _ ih => exact .step hlen' hchild' (ih hlen hchild)

theorem regular (h : Reach m goal lines last) (hregular : Line.Regular lines) :
    Line.Regular last ∧ Bounds.of m k last = Bounds.of m k lines := by
  induction h with
  | refl => exact ⟨hregular, rfl⟩
  | step _ hchild _ ih =>
    obtain ⟨l, hl, -, rfl⟩ := (mem_children_iff hregular.numbered).mp hchild
    obtain ⟨hlast, hbounds⟩ := ih (hregular.step hl)
    exact ⟨hlast, hbounds.trans (Bounds.of_step hl)⟩

/-- Where the goal first comes up, the node before finishes. -/
theorem exists_oneStep (h : Reach m goal lines last) (hnum : Line.WellNumbered lines)
    (hgoal : goal ∈ formulas last) :
    goal ∈ formulas lines ∨
      ∃ z, Reach m goal lines z ∧ z.length ≤ m ∧ OneStep (formulas z) goal goal := by
  induction h with
  | refl => exact .inl hgoal
  | @step lines child last hlen hchild _ ih =>
    obtain ⟨l, hl, -, rfl⟩ := (mem_children_iff hnum).mp hchild
    have hnum' := Line.wellNumbered_append_singleton.mpr ⟨hnum, hl.number_eq⟩
    rcases ih hnum' hgoal with hmem | ⟨z, hz, hzlen, hstep⟩
    · rw [formulas_append_singleton, List.mem_append, List.mem_singleton] at hmem
      rcases hmem with hmem | hmem
      · exact .inl hmem
      · exact .inr ⟨lines, .refl lines, hlen, hmem ▸ hl.oneStep⟩
    · exact .inr ⟨z, .step hlen hchild hz, hzlen, hstep⟩

end Reach

theorem keeps_reach (head : Node) :
    head.Keeps fun lines =>
      Line.WellNumbered lines ∧ Reach head.settings.maxLines head.goal head.lines lines := by
  intro lines l hlines hP hl hnew hgoal
  exact ⟨head.keeps_wellNumbered lines l hlines hP.1 hl hnew hgoal,
    hP.2.tail hlines.short ((mem_children_iff hP.1).mpr ⟨l, hl, hnew, rfl⟩)⟩

/-- What holds eventually of each node of a search holds eventually of all of
them. -/
theorem eventually_forall_reach {lines : List Line} {P : List Line → Settings → Prop}
    (h : ∀ x, Reach m goal lines x → x.length ≤ m → Settings.Eventually m k (P x)) :
    Settings.Eventually m k fun s => ∀ x, Reach m goal lines x → x.length ≤ m → P x s := by
  by_cases hlen : lines.length ≤ m
  · have hself := h lines (.refl lines) hlen
    have hchildren : Settings.Eventually m k fun s => ∀ child ∈ children goal lines,
        ∀ x, Reach m goal child x → x.length ≤ m → P x s := by
      apply Settings.Eventually.forall_mem
      intro child hchild
      have := length_lt_of_mem_children hchild
      exact eventually_forall_reach fun x hx => h x (.step hlen hchild hx)
    refine (hself.and hchildren).mono fun s _ _ hs x hx hxlen => ?_
    cases hx with
    | refl => exact hs.1
    | step _ hchild hx => exact hs.2 _ hchild x hx hxlen
  · refine .of_forall fun s _ _ x hx hxlen => ?_
    have := hx.length_le
    omega
termination_by m + 1 - lines.length
decreasing_by omega

/-! ### The cost of a search -/

/-- The number of nodes below some lines, down to a depth. -/
def work (goal : Formula) : Nat → List Line → Nat
  | 0, _ => 0
  | depth + 1, lines => 1 + ((children goal lines).map (work goal depth)).sum

/-- The number of nodes that a search from some lines has to expand at most. -/
def cost (m : Nat) (goal : Formula) (lines : List Line) : Nat :=
  work goal (m + 1 - lines.length) lines

theorem cost_of_short (hnum : Line.WellNumbered lines) (hlen : lines.length ≤ m) :
    cost m goal lines = 1 + ((children goal lines).map (cost m goal)).sum := by
  have hdepth : m + 1 - lines.length = (m - lines.length) + 1 := by omega
  rw [cost, hdepth, work]
  congr 2
  apply List.map_congr_left
  intro child hchild
  obtain ⟨l, -, -, rfl⟩ := (mem_children_iff hnum).mp hchild
  rw [cost, List.length_append, List.length_singleton, Nat.add_sub_add_right]

end Node

namespace Frontier

open Node

variable {head : Node} {left left' : Nat} {f g : Frontier}

/-- The budget covers all that waits. -/
def Ample (head : Node) (left : Nat) (f : Frontier) : Prop :=
  (f.queue.toList.map (cost head.settings.maxLines head.goal)).sum ≤ left

theorem Ample.ne_zero {lines : List Line} {rest : List (List Line)} (h : Ample head left f)
    (hf : Expands head.goal head.settings f lines rest) (hnum : Line.WellNumbered lines) :
    left ≠ 0 := by
  rw [Ample, hf.queue, List.map_cons, List.sum_cons, cost_of_short hnum hf.short] at h
  omega

/-- The children of a node that does not end the search. -/
theorem map_candidates_eq_children {lines : List Line} {rest : List (List Line)} {found : Found}
    (hf : Expands head.goal head.settings f lines rest)
    (hfound : candidates Node.search ⟨lines, head.goal, head.settings⟩ = .ok found)
    (hnone : found.candidates.find? (fun e => decide (e.last.formula = head.goal)) = none) :
    (found.candidates.map fun e => lines ++ e.lines) = children head.goal lines := by
  rw [candidates_eq_newSteps hfound hf.incomplete (by simpa using List.find?_eq_none.mp hnone)]
  rfl

/-- Without an account of states a pass keeps the budget ample. -/
theorem Ample.pass (h : Ample head left f) (hseen : f.seen = none)
    (hf : Holds head (Open head) f)
    (hpass : Passed Node.search head.goal head.settings left f (.goesOn left' g)) :
    Ample head left' g ∧ g.seen = none := by
  rw [Ample] at h ⊢
  cases hpass with
  | discarded hqueue _ _ hs _ =>
    rw [hqueue, List.map_cons, List.sum_cons] at h
    exact ⟨by omega, hs.trans hseen⟩
  | @expanded _ _ _ lines rest found hexp hfound hnone hqueue hs _ =>
    obtain ⟨-, hnum, -⟩ := hexp.expandable hf
    rw [map_candidates_eq_children hexp hfound hnone, hseen] at hqueue hs
    rw [admitted_none] at hqueue
    rw [hexp.queue, List.map_cons, List.sum_cons, cost_of_short hnum hexp.short] at h
    rw [hqueue, List.map_append, List.sum_append]
    exact ⟨by omega, hs.trans (noted_none _)⟩

/-- An ample budget is not spent. -/
theorem run_not_spent (hample : Ample head left f) (hseen : f.seen = none)
    (hf : Holds head (Open head) f) :
    (f.run Node.search head.goal head.settings left).ending ≠ .halted .maximumIteration := by
  induction left, f using run_induction Node.search head.goal head.settings with
  | ends left f r hpass =>
    cases hpass with
    | exhausted _ hr =>
      rw [hr]
      split <;> simp
    | complete _ _ hr | finished _ _ _ hr | broke _ _ hr => simp [hr]
    | spent hexp => exact absurd rfl (hample.ne_zero hexp (hexp.expandable hf).2.1)
  | goesOn left f left' g hpass ih =>
    obtain ⟨hample', hseen'⟩ := hample.pass hseen hf hpass
    exact ih hample' hseen' (hf.pass (keeps_open head) hpass)

/-- A run that visits a node that finishes finds a proof. -/
theorem run_exhaustive (hample : Ample head left f) (hseen : f.seen = none)
    (hf : Holds head (Open head) f)
    (h : ∃ x ∈ f.queue.toList, ∃ z, Reach head.settings.maxLines head.goal x z ∧
      z.length ≤ head.settings.maxLines ∧
      Finishes Node.search ⟨z, head.goal, head.settings⟩) :
    ∃ out, (f.run Node.search head.goal head.settings left).ending = .proved out := by
  induction left, f using run_induction Node.search head.goal head.settings with
  | ends left f r hpass =>
    obtain ⟨x, hx, -⟩ := h
    cases hpass with
    | exhausted hqueue =>
      rw [hqueue] at hx
      cases hx
    | complete _ _ hr | finished _ _ _ hr => exact ⟨_, hr⟩
    | spent hexp =>
      exact absurd rfl (hample.ne_zero hexp (hexp.expandable hf).2.1)
    | broke hexp hfound =>
      have hnum := (hexp.expandable hf).2.1
      obtain ⟨found, hok⟩ := exists_candidates (n := ⟨_, head.goal, head.settings⟩) hnum
        (nestedAnswer_search hnum)
      rw [hok] at hfound
      cases hfound
  | goesOn left f left' g hpass ih =>
    obtain ⟨hample', hseen'⟩ := hample.pass hseen hf hpass
    refine ih hample' hseen' (hf.pass (keeps_open head) hpass) ?_
    obtain ⟨x, hx, z, hreach, hlen, hfin⟩ := h
    cases hpass with
    | discarded hqueue _ hlong =>
      rw [hqueue] at hx
      rcases List.mem_cons.mp hx with rfl | hx
      · -- below a node that is too long nothing is expanded
        have := hreach.length_le
        omega
      · exact ⟨x, hx, z, hreach, hlen, hfin⟩
    | @expanded _ _ _ lines rest found hexp hfound hnone hqueue _ _ =>
      rw [map_candidates_eq_children hexp hfound hnone, hseen, admitted_none] at hqueue
      rw [hqueue]
      rw [hexp.queue] at hx
      rcases List.mem_cons.mp hx with rfl | hx
      · cases hreach with
        | refl =>
          have hnum := (hexp.expandable hf).2.1
          exact absurd hfin (not_finishes_of_find?_eq_none hnum hexp.incomplete
            (nestedAnswer_search hnum) hfound hnone)
        | step _ hchild hreach =>
          exact ⟨_, List.mem_append_right rest hchild, z, hreach, hlen, hfin⟩
      · exact ⟨x, List.mem_append_left _ hx, z, hreach, hlen, hfin⟩

end Frontier

/-! ### Finding what is provable -/

namespace Node

open Settings

variable {m k : Nat} {goal : Formula} {lines : List Line}

theorem proves_of_complete {n : Node} (h : n.goal ∈ formulas n.lines) : Proves Node.search n := by
  rw [Proves, search_eq]
  exact ⟨_, Frontier.run_of_complete rfl (states_eq_true_iff.mpr h)⟩

theorem search_not_spent (head : Node) (hnum : Line.WellNumbered head.lines)
    (hoff : head.settings.dedupe.truthy = false)
    (hcost : cost head.settings.maxLines head.goal head.lines ≤ head.settings.iterations) :
    (Node.search head).ending ≠ .halted .maximumIteration := by
  rw [search_eq, searchWith]
  by_cases hgoal : head.goal ∈ formulas head.lines
  · rw [Frontier.run_of_complete rfl (states_eq_true_iff.mpr hgoal)]
    intro h
    cases h
  · refine Frontier.run_not_spent ?_ ?_ (Frontier.holds_start ⟨hnum, hgoal⟩)
    · simpa [Frontier.Ample, Frontier.start] using hcost
    · simp [Frontier.start, hoff]

/-- **With an ample budget and no account of states a search is exhaustive.** -/
theorem search_exhaustive {head : Node} {z : List Line} (hnum : Line.WellNumbered head.lines)
    (hoff : head.settings.dedupe.truthy = false)
    (hcost : cost head.settings.maxLines head.goal head.lines ≤ head.settings.iterations)
    (hreach : Reach head.settings.maxLines head.goal head.lines z)
    (hlen : z.length ≤ head.settings.maxLines)
    (hfin : Finishes Node.search ⟨z, head.goal, head.settings⟩) : Proves Node.search head := by
  by_cases hgoal : head.goal ∈ formulas head.lines
  · exact proves_of_complete hgoal
  · rw [Proves, search_eq]
    refine Frontier.run_exhaustive ?_ ?_ (Frontier.holds_start ⟨hnum, hgoal⟩)
      ⟨head.lines, ?_, z, hreach, hlen, hfin⟩
    · simpa [Frontier.Ample, Frontier.start] using hcost
    · simp [Frontier.start, hoff]
    · simp [Frontier.start]

/-- From lines that fit the bounds and state these formulas, a search with large
enough budgets finds the goal. -/
def EventuallyProved (b : Bounds) (goal : Formula) (fs : List Formula) : Prop :=
  ∀ lines, formulas lines = fs → Line.Regular lines → Bounds.of b.lines b.sub lines = b →
    Eventually b.lines b.sub fun s => Proves Node.search ⟨lines, goal, s.withDedupe false⟩

theorem eventually_finishes_disjElim {x y : Formula} (hregular : Line.Regular lines)
    (hopen : Line.hasOpenBlock lines .disjHypothesis = false) (hmem : .disj x y ∈ formulas lines)
    (h₁ : EventuallyProved (Bounds.of m k lines).inDisj goal (formulas lines ++ [x]))
    (h₂ : EventuallyProved (Bounds.of m k lines).inDisj goal (formulas lines ++ [y])) :
    Eventually m k fun s => Finishes Node.search ⟨lines, goal, s.withDedupe false⟩ := by
  obtain ⟨l, hl, hf⟩ := mem_formulas.mp hmem
  have hbranch : ∀ side, EventuallyProved (Bounds.of m k lines).inDisj goal
      (formulas lines ++ [side]) → Eventually (min k m) (min k m) fun s =>
        Proves Node.search ⟨lines ++ [.ofHypothesis side .disjHypothesis lines.length [l.number]],
          goal, s.withDedupe false⟩ :=
    fun side h => h _ (formulas_append_singleton _ _) (hregular.append_singleton rfl rfl)
      (Bounds.of_disjHypothesis hregular.settled rfl)
  refine ((hbranch x h₁).nested.and (hbranch y h₂).nested).mono fun s _ _ h => ?_
  exact .disjElim hl hf hopen h.1 h.2

theorem eventually_finishes_conditional {x y : Formula} (hregular : Line.Regular lines)
    (hopen : Line.hasOpenBlock lines .conditionalHypothesis = false) (hgoal : goal = .imp x y)
    (h : EventuallyProved (Bounds.of m k lines).inCond y (formulas lines ++ [x])) :
    Eventually m k fun s => Finishes Node.search ⟨lines, goal, s.withDedupe false⟩ := by
  have hbranch : Eventually (min k m) (min k m) fun s =>
      Proves Node.search ⟨lines ++ [.ofHypothesis x .conditionalHypothesis lines.length []],
        y, s.withDedupe false⟩ :=
    h _ (formulas_append_singleton _ _) (hregular.append_singleton rfl rfl)
      (Bounds.of_conditionalHypothesis hregular.settled rfl)
  exact hbranch.nested.mono fun s _ _ h => .conditional hgoal hopen h

/-- If a node within the bound eventually finishes, the search from it
eventually finds a proof. -/
theorem eventually_proves_of_finishes (hnum : Line.WellNumbered lines) (hlen : lines.length ≤ m)
    (h : Eventually m k fun s => Finishes Node.search ⟨lines, goal, s.withDedupe false⟩) :
    Eventually m k fun s => Proves Node.search ⟨lines, goal, s.withDedupe false⟩ := by
  refine (h.and (.iterations (cost m goal lines))).mono fun s hm hk hs => ?_
  subst hm
  exact search_exhaustive hnum rfl hs.2 (.refl lines) hlen hs.1

/-- A search finds what the search from one of its children finds, if its
budgets are large enough. -/
theorem eventually_proves_of_step {l : Line} (hnum : Line.WellNumbered lines)
    (hlen : lines.length ≤ m) (hl : IsStep lines goal l) (hnew : l.formula ∉ formulas lines)
    (h : Eventually m k fun s => Proves Node.search ⟨lines ++ [l], goal, s.withDedupe false⟩) :
    Eventually m k fun s => Proves Node.search ⟨lines, goal, s.withDedupe false⟩ := by
  refine (h.and (.iterations (cost m goal lines))).mono fun s hm hk hs => ?_
  subst hm
  obtain ⟨⟨out, hout⟩, hcost⟩ := hs
  have hchild : lines ++ [l] ∈ children goal lines :=
    (mem_children_iff hnum).mpr ⟨l, hl, hnew, rfl⟩
  have hnum' := Line.wellNumbered_append_singleton.mpr ⟨hnum, hl.number_eq⟩
  by_cases hgoal : goal ∈ formulas lines
  · exact proves_of_complete hgoal
  · -- the search from the child ends at a node of its tree, which is part of this one
    rcases search_proved (keeps_reach _) ⟨hnum', .refl _⟩ hout with
      ⟨-, ⟨-, hreach⟩, hstated⟩ | ⟨x, found, e, hx, ⟨-, hreach⟩, hfound, he, -⟩
    · obtain ⟨z, hz, hzlen, hstep⟩ :=
        (Reach.exists_oneStep (.step hlen hchild hreach) hnum hstated).resolve_left hgoal
      exact search_exhaustive hnum rfl hcost hz hzlen (.single hstep)
    · exact search_exhaustive hnum rfl hcost (.step hlen hchild hreach) hx.short
        (finishes_of_find?_eq_some hfound he)

end Node

open Node Settings

theorem Provable.eventuallyProved {b : Bounds} {goal : Formula} {fs : List Formula}
    (h : Provable b goal fs) : EventuallyProved b goal fs := by
  induction h with
  | stated h =>
    rintro lines rfl _ _
    exact .of_forall fun s _ _ => proves_of_complete h
  | step hlen hf hnew _ ih =>
    rintro lines rfl hregular hbounds
    obtain ⟨l, hl, rfl⟩ := hf.exists_isStep hregular.numbered
    rw [length_formulas] at hlen
    refine eventually_proves_of_step hregular.numbered hlen hl hnew ?_
    exact ih _ (formulas_append_singleton _ _) (hregular.step hl)
      ((Bounds.of_step hl).trans hbounds)
  | disjElim hlen hopen hmem _ _ ih₁ ih₂ =>
    rintro lines rfl hregular hbounds
    rw [length_formulas] at hlen
    rw [← hbounds] at hopen ih₁ ih₂
    exact eventually_proves_of_finishes hregular.numbered hlen
      (eventually_finishes_disjElim hregular hopen hmem ih₁ ih₂)
  | conditional hlen hopen _ ih =>
    rintro lines rfl hregular hbounds
    rw [length_formulas] at hlen
    rw [← hbounds] at hopen ih
    exact eventually_proves_of_finishes hregular.numbered hlen
      (eventually_finishes_conditional hregular hopen rfl ih)

/-- **With ample budgets a node finishes exactly when its formulas close a
derivation.** -/
theorem eventually_finishes_iff {lines : List Line} (hregular : Line.Regular lines) (m k : Nat)
    (goal : Formula) :
    Eventually m k fun s => Finishes Node.search ⟨lines, goal, s.withDedupe false⟩ ↔
      Closes (Bounds.of m k lines) goal (formulas lines) := by
  by_cases hcloses : Closes (Bounds.of m k lines) goal (formulas lines)
  · have hfin : Eventually m k fun s => Finishes Node.search ⟨lines, goal, s.withDedupe false⟩ := by
      cases hcloses with
      | single h => exact .of_forall fun s _ _ => .single h
      | disjElim hopen hmem h₁ h₂ =>
        exact eventually_finishes_disjElim hregular hopen hmem h₁.eventuallyProved
          h₂.eventuallyProved
      | conditional hgoal hopen h =>
        exact eventually_finishes_conditional hregular hopen hgoal h.eventuallyProved
    exact hfin.mono fun s _ _ h => iff_of_true h hcloses
  · refine .of_forall fun s hm hk => iff_of_false (fun h => hcloses ?_) hcloses
    subst hm hk
    refine Finishes.closes (n := ⟨lines, goal, s.withDedupe false⟩) hregular ?_ h
    intro hypothesis subgoal hnumber hcloses
    exact provableAt_search _ (hregular.append_singleton hnumber hcloses)

end NaturalDeduction
