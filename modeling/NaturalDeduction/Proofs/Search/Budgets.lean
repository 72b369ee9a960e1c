/-
Larger budgets lose nothing.

A search with larger budgets need not find the same proof: a nested search that
used to run out of its budget may now succeed and end the search early.  But it
finds a proof whenever the search with the smaller budgets does.

The two searches are run side by side.  As long as neither has ended they have
the same queue and have seen the same states, since the children of a node that
does not finish are its new single steps, whatever the settings.

* Where the smaller search ends with a candidate, so does the larger: a node
  that finishes keeps finishing when the nested searches get larger budgets
  (`Finishes.mono`), by induction on the room.
* The smaller search may discard a node that the larger one expands.  Then all
  that waits is too long for the smaller search, which halts without a proof
  (`Frontier.run_of_all_long`).
-/
import NaturalDeduction.Proofs.Search.Finish
import NaturalDeduction.Proofs.Search.Levels

namespace NaturalDeduction

/-! ### Larger budgets -/

/-- The budgets of `s` are within those of `s'`, and both keep account of the
states seen or neither does. -/
structure Settings.Within (s s' : Settings) : Prop where
  maxLines : s.maxLines ≤ s'.maxLines
  iterations : s.iterations ≤ s'.iterations
  subMaxLines : s.subMaxLines ≤ s'.subMaxLines
  subIterations : s.subIterations ≤ s'.subIterations
  dedupe : s.dedupe.truthy = s'.dedupe.truthy

theorem Settings.Within.nested {s s' : Settings} (h : s.Within s') :
    s.nested.Within s'.nested := by
  have hmin : min s.subMaxLines s.maxLines ≤ min s'.subMaxLines s'.maxLines := by
    have := h.maxLines
    have := h.subMaxLines
    omega
  exact ⟨hmin, h.subIterations, hmin, h.subIterations, h.dedupe⟩

namespace Node

/-- A node that finishes still finishes when its nested searches prove more. -/
theorem Finishes.mono {search search' : Node → Run} {lines : List Line} {goal : Formula}
    {s s' : Settings}
    (hnested : ∀ (hypothesis : Line) (subgoal : Formula), hypothesis.number = lines.length →
      Proves search (assuming ⟨lines, goal, s⟩ hypothesis subgoal) →
      Proves search' (assuming ⟨lines, goal, s'⟩ hypothesis subgoal))
    (h : Finishes search ⟨lines, goal, s⟩) : Finishes search' ⟨lines, goal, s'⟩ := by
  cases h with
  | single h => exact .single h
  | disjElim hl hf hclosed h₁ h₂ =>
    exact .disjElim hl hf hclosed (hnested _ _ rfl h₁) (hnested _ _ rfl h₂)
  | conditional hgoal hclosed h => exact .conditional hgoal hclosed (hnested _ _ rfl h)

end Node

/-! ### Two runs side by side -/

namespace Frontier

open Node

variable {head : Node} {s' : Settings}

/-- If the smaller run finds a proof, so does the larger. -/
theorem run_mono (hmax : head.settings.maxLines ≤ s'.maxLines)
    (hfinish : ∀ lines, head.Expandable lines → Line.WellNumbered lines →
      Finishes Node.search ⟨lines, head.goal, head.settings⟩ →
      Finishes Node.search ⟨lines, head.goal, s'⟩)
    {left left' : Nat} {f f' : Frontier} (hqueue : f'.queue.toList = f.queue.toList)
    (hseen : f'.seen = f.seen) (hleft : left ≤ left') (hlevel : f.Leveled)
    (hf : Holds head (Open head) f)
    (h : ∃ out, (f.run Node.search head.goal head.settings left).ending = .proved out) :
    ∃ out, (f'.run Node.search head.goal s' left').ending = .proved out := by
  induction left, f using run_induction Node.search head.goal head.settings
    generalizing left' f' with
  | ends left f r hpass =>
    obtain ⟨out, hout⟩ := h
    cases hpass with
    | exhausted _ hr | spent _ hr | broke _ _ hr =>
      rw [hr] at hout
      cases hout
    | complete hq hstates _ => exact ⟨_, run_of_complete (hqueue.trans hq) hstates⟩
    | @finished _ _ _ lines rest found e hexp hfound he _ =>
      obtain ⟨hlines, hnum, -⟩ := hexp.expandable hf
      have hfin := hfinish lines hlines hnum (finishes_of_find?_eq_some hfound he)
      obtain ⟨left', rfl⟩ := Nat.exists_eq_add_one_of_ne_zero (n := left') (by omega)
      have hexp' : Expands head.goal s' f' lines rest :=
        ⟨hqueue.trans hexp.queue, hexp.incomplete, Nat.le_trans hexp.short hmax⟩
      rcases run_of_front left' hexp' hnum with ⟨-, hout'⟩ | ⟨hnot, -⟩
      · exact hout'
      · exact absurd hfin hnot
  | goesOn left f left₂ g hpass ih =>
    have hlevel₂ := hlevel.pass hpass
    have hf₂ := hf.pass (keeps_open head) hpass
    cases hpass with
    | @discarded _ _ _ lines hq hstates hlong =>
      -- everything that waits is too long, so there is no proof to come
      have hlong₂ : ∀ a ∈ g.queue.toList, Line.states a head.goal = false ∧
          head.settings.maxLines < a.length := by
        intro a ha
        refine ⟨states_eq_false_iff.mpr (hf₂ a ha).2.2, ?_⟩
        have hsorted := hlevel.sorted
        rw [hq] at hsorted
        exact Nat.lt_of_lt_of_le hlong ((List.pairwise_cons.mp hsorted).1 a ha)
      obtain ⟨why, hwhy⟩ := run_of_all_long Node.search left hlong₂
      obtain ⟨out, hout⟩ := h
      rw [hwhy] at hout
      cases hout
    | @expanded _ _ _ lines rest found hexp hfound hnone hq hs _ =>
      obtain ⟨hlines, hnum, -⟩ := hexp.expandable hf
      have hsteps := candidates_eq_newSteps hfound hexp.incomplete
        (by simpa using List.find?_eq_none.mp hnone)
      obtain ⟨left', rfl⟩ := Nat.exists_eq_add_one_of_ne_zero (n := left') (by omega)
      have hexp' : Expands head.goal s' f' lines rest :=
        ⟨hqueue.trans hexp.queue, hexp.incomplete, Nat.le_trans hexp.short hmax⟩
      rcases run_of_front left' hexp' hnum with ⟨-, hout'⟩ | ⟨-, g', hq', hs', -, hrun'⟩
      · exact hout'
      · rw [hrun']
        rw [hsteps] at hq hs
        refine ih ?_ ?_ (by omega) hlevel₂ hf₂ h
        · rw [hq', hq, hseen]
          rfl
        · rw [hs', hs, hseen]
          rfl

end Frontier

/-! ### The search -/

namespace Node

theorem proves_mono (head : Node) (s' : Settings) (hnum : Line.WellNumbered head.lines)
    (hwithin : head.settings.Within s') (h : Proves Node.search head) :
    Proves Node.search ⟨head.lines, head.goal, s'⟩ := by
  induction head using search_induction generalizing s' with
  | step head ih =>
    rw [Proves, search_eq] at h ⊢
    rw [searchWith] at h ⊢
    by_cases hgoal : Line.states head.lines head.goal = true
    · exact ⟨_, Frontier.run_of_complete rfl hgoal⟩
    · have hopen : Frontier.Open head head.lines := ⟨hnum, by rwa [states_eq_true_iff] at hgoal⟩
      refine Frontier.run_mono (f := Frontier.start head) hwithin.maxLines ?_ rfl ?_
        hwithin.iterations (Frontier.leveled_start head) (Frontier.holds_start hopen) h
      · intro lines hlines hnum' hfin
        refine hfin.mono fun hypothesis subgoal hnumber hproves => ?_
        exact ih lines hypothesis subgoal hlines.length_le hlines.short s'.nested
          (assuming_wellNumbered (n := ⟨lines, head.goal, head.settings⟩) hnum' hnumber)
          hwithin.nested hproves
      · simp only [Frontier.start, hwithin.dedupe]

end Node

/-- **Larger budgets lose nothing.**  If the search for a goal from assumptions
finds a proof, it finds one under any larger budgets. -/
theorem search_monotone (assumptions : List Formula) (goal : Formula) (s s' : Settings)
    (hwithin : s.Within s')
    (h : ∃ out, (Node.search ⟨Line.ofAssumptions assumptions, goal, s⟩).ending = .proved out) :
    ∃ out, (Node.search ⟨Line.ofAssumptions assumptions, goal, s'⟩).ending = .proved out :=
  Node.proves_mono ⟨Line.ofAssumptions assumptions, goal, s⟩ s'
    (Line.wellNumbered_ofAssumptions assumptions) hwithin h

/-- The smallest budgets under which a disjunction can be turned round. -/
def tightBudgets : Settings :=
  { maxLines := 2, iterations := 1, subMaxLines := 2, subIterations := 1 }

theorem search_monotone_tightBudgets :
    tightBudgets.Within default ∧
    (∃ out, (Node.search ⟨Line.ofAssumptions [.disj (.var "P") (.var "Q")],
      .disj (.var "Q") (.var "P"), tightBudgets⟩).ending = .proved out) ∧
    ∃ out, (Node.search ⟨Line.ofAssumptions [.disj (.var "P") (.var "Q")],
      .disj (.var "Q") (.var "P"), default⟩).ending = .proved out := by
  have hwithin : tightBudgets.Within default :=
    ⟨by decide, by decide, by decide, by decide, by decide⟩
  have hfinished : (Node.search ⟨Line.ofAssumptions [.disj (.var "P") (.var "Q")],
      .disj (.var "Q") (.var "P"), tightBudgets⟩).status = .finished := by
    decide +kernel
  have h := Run.exists_proved hfinished
  exact ⟨hwithin, h, search_monotone _ _ _ _ hwithin h⟩

end NaturalDeduction
