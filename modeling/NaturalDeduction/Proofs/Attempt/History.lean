/-
Attempts over time.

An attempt may be searched again and again, and between two searches its goal
and its settings may be replaced.  `Attempt.perform` says what one such action
does to it, and `Attempt.performAll` what a history of them does.

* A search of sound lines ends in one of two ways: it halts and only notes how,
  or it finds a proof and puts lines behind those of the attempt
  (`search_ends`).
* So an attempt with sound lines is only ever continued, by each action
  (`continues_perform`) and by every history (`continues_performAll`).

A proof leaves all of its lines in the attempt, those inside of its blocks too,
and a later search takes them as given.  It may then find a goal that holds only
under a hypothesis that was discharged before (`search_after_block_unsound`).
What it finds is true wherever the assumptions are true and the hypotheses that
earlier proofs have left.

Main results: `history_checked`, `search_sound_after`.
-/
import NaturalDeduction.Proofs.Check.Entailment
import NaturalDeduction.Proofs.Search.Budgets
import NaturalDeduction.Proofs.Search.Checked
import NaturalDeduction.Proofs.Search.Derived
import NaturalDeduction.Proofs.Search.Soundness

namespace NaturalDeduction

namespace Attempt

/-! ### Actions -/

/-- What can be done with an attempt. -/
inductive Action where
  | search
  | replaceGoal (goal : Formula)
  | replaceSettings (settings : Settings)

/-- The attempt after an action. -/
def perform (a : Attempt) : Action → Attempt
  | .search => a.search.2
  | .replaceGoal goal => { a with goal }
  | .replaceSettings settings => { a with settings }

/-- The attempt after some actions, from first to last. -/
def performAll (a : Attempt) (actions : List Action) : Attempt :=
  actions.foldl perform a

variable {a b c : Attempt}

theorem performAll_append (a : Attempt) (before after : List Action) :
    a.performAll (before ++ after) = (a.performAll before).performAll after :=
  List.foldl_append

/-! ### One search -/

/-- **How a search of an attempt ends.**  It halts, and the attempt only notes
why; or it finds a proof that begins with the lines of the attempt and states
the goal, and the attempt takes its lines over. -/
theorem search_ends (hnum : Line.WellNumbered a.lines) :
    (∃ why, a.search.1.ending = .halted why ∧
      a.search.2 = { a with status := .halted why, stats := some a.search.1.stats }) ∨
    ∃ out, a.search.1.ending = .proved out ∧
      a.search.2 = { a with lines := out, status := .finished, stats := some a.search.1.stats } ∧
      a.lines <+: out ∧ Line.states out a.goal = true := by
  have hanswers := a.node.answers_search hnum
  rcases hend : a.node.search.ending with out | why | fault
  · obtain ⟨hkept, -, hgoal⟩ := hanswers.continues out hend
    refine .inr ⟨out, hend, ?_, hkept, Node.states_eq_true_iff.mpr hgoal⟩
    rw [search, update, hend]
  · refine .inl ⟨why, hend, ?_⟩
    rw [search, update, hend]
  · -- lines numbered by their places can be worked on
    exact absurd hend (hanswers.unbroken fault)

/-! ### What actions keep -/

/-- The second attempt goes on where the first one stands: its lines are sound
and begin with those of the first, and it has the same assumptions, both by
themselves and among its lines. -/
structure Continues (a b : Attempt) : Prop where
  kept : a.lines <+: b.lines
  sound : Sound b.lines
  assumptions : b.assumptions = a.assumptions
  assumed : b.node.assumptions = a.node.assumptions

theorem Continues.refl (hs : Sound a.lines) : Continues a a :=
  ⟨List.prefix_refl a.lines, hs, rfl, rfl⟩

theorem Continues.trans (h : Continues a b) (h' : Continues b c) : Continues a c where
  kept := h.kept.trans h'.kept
  sound := h'.sound
  assumptions := h'.assumptions.trans h.assumptions
  assumed := h'.assumed.trans h.assumed

theorem continues_search (hs : Sound a.lines) : Continues a a.search.2 := by
  rcases search_ends hs.wellNumbered with ⟨why, -, hsearch⟩ | ⟨out, hout, hsearch, hkept, -⟩
  · rw [hsearch]
    exact ⟨List.prefix_refl a.lines, hs, rfl, rfl⟩
  · rw [hsearch]
    exact ⟨hkept, a.node.checkedAt_search hs out hout, rfl,
      Node.assumptions_of_proved hs.wellNumbered hout⟩

theorem continues_perform (hs : Sound a.lines) (action : Action) :
    Continues a (a.perform action) := by
  cases action with
  | search => exact continues_search hs
  -- neither the goal nor the settings are looked at
  | replaceGoal goal => exact ⟨List.prefix_refl a.lines, hs, rfl, rfl⟩
  | replaceSettings settings => exact ⟨List.prefix_refl a.lines, hs, rfl, rfl⟩

theorem continues_performAll (hs : Sound a.lines) (actions : List Action) :
    Continues a (a.performAll actions) := by
  induction actions generalizing a with
  | nil => exact .refl hs
  | cons action rest ih =>
    have hstep := continues_perform hs action
    -- soundness is what the next action needs of this one
    exact hstep.trans (ih hstep.sound)

end Attempt

open Attempt

/-- **Histories keep lines and their soundness.**  Whatever is done with an
attempt with sound lines, its lines stay where they are, more of them only
follow, and all of them are sound.  A search at any time either halts, and
nothing but status and statistics changes, or finishes with lines that state the
goal of that time. -/
theorem history_checked (a : Attempt) (hs : Sound a.lines) :
    (∀ before after, (a.performAll before).lines <+: (a.performAll (before ++ after)).lines) ∧
    ∀ actions, let b := a.performAll actions
      Sound b.lines ∧
      ((∃ why, b.search.1.ending = .halted why ∧
          b.perform .search = { b with status := .halted why, stats := some b.search.1.stats }) ∨
        ∃ out, b.search.1.ending = .proved out ∧
          b.perform .search =
            { b with lines := out, status := .finished, stats := some b.search.1.stats } ∧
          Line.states out b.goal = true) := by
  constructor
  · intro before after
    rw [performAll_append]
    exact (continues_performAll (continues_performAll hs before).sound after).kept
  · intro actions b
    have hb : Sound b.lines := (continues_performAll hs actions).sound
    refine ⟨hb, ?_⟩
    rcases search_ends hb.wellNumbered with hhalted | ⟨out, hout, hsearch, -, hgoal⟩
    · exact .inl hhalted
    · exact .inr ⟨out, hout, hsearch, hgoal⟩

/-- One conditional is proved after another. -/
def twoConditionals : List Action :=
  [.search, .replaceGoal (.imp (.var "R") (.conj (.var "P") (.var "Q"))), .search]

/-- A new goal, and no room for another line. -/
def noRoom : List Action :=
  [.replaceGoal (.var "S"), .replaceSettings tightBudgets]

theorem twoConditionals_checked :
    let a := start [.var "P"] (.imp (.var "Q") (.var "P")) default
    let b := a.performAll twoConditionals
    let c := a.performAll (twoConditionals ++ noRoom)
    Sound a.lines ∧ a.lines <+: b.lines ∧ b.lines.length = 6 ∧ Sound b.lines ∧
      b.status = .finished ∧ b.lines <+: c.lines ∧
      c.perform .search =
        { c with status := .halted .maximumLines, stats := some c.search.1.stats } := by
  intro a b c
  have hs : Sound a.lines := by decide +kernel
  have hhalted : c.search.1.status = .halted .maximumLines := by decide +kernel
  obtain ⟨hkept, hsearch⟩ := history_checked a hs
  refine ⟨hs, hkept [] twoConditionals, by decide +kernel, (hsearch twoConditionals).1,
    by decide +kernel, hkept twoConditionals noRoom, ?_⟩
  rcases (hsearch (twoConditionals ++ noRoom)).2 with ⟨why, hwhy, h⟩ | ⟨out, hout, -⟩
  · obtain rfl : why = .maximumLines :=
      Ending.halted.inj (hwhy.symm.trans (Run.ending_of_status hhalted))
    exact h
  · cases hout.symm.trans (Run.ending_of_status hhalted)

/-! ### What later searches find -/

namespace Attempt

theorem continues_start (assumptions : List Formula) (goal : Formula) (settings : Settings)
    (actions : List Action) :
    Continues (start assumptions goal settings)
      ((start assumptions goal settings).performAll actions) :=
  continues_performAll (sound_ofAssumptions assumptions) actions

theorem node_assumptions_start (assumptions : List Formula) (goal : Formula)
    (settings : Settings) : (start assumptions goal settings).node.assumptions = assumptions := by
  have hrule : ∀ l ∈ Line.ofAssumptions assumptions, l.rule = .assumption := by
    intro l hl
    obtain ⟨i, f, rfl⟩ := Line.mem_ofAssumptions hl
    rfl
  show ((Line.ofAssumptions assumptions).filter (·.rule = .assumption)).map (·.formula) = _
  rw [List.filter_eq_self.mpr (by simpa using hrule)]
  exact Node.formulas_ofAssumptions assumptions

end Attempt

/-- **What a search finds after a history.**  The assumptions of an attempt
never change, and a goal that a search finds is true wherever they are, if the
hypotheses that stand among the lines of the attempt are true there too.  The
first search meets no hypotheses. -/
theorem search_sound_after (assumptions : List Formula) (goal : Formula) (settings : Settings)
    (actions : List Action) (out : List Line)
    (h : ((start assumptions goal settings).performAll actions).search.1.ending = .proved out) :
    let a := (start assumptions goal settings).performAll actions
    a.assumptions = assumptions ∧
    ∀ v, (∀ f ∈ a.assumptions, f.holds v = true) →
      (∀ l ∈ a.lines, l.rule.opensBlock = true → l.formula.holds v = true) →
      a.goal.holds v = true := by
  intro a
  have ha := continues_start assumptions goal settings actions
  have hassumptions : a.assumptions = assumptions := ha.assumptions
  -- the lines that count as assumptions state those of the attempt, and no others
  have hnode : a.node.assumptions = assumptions :=
    ha.assumed.trans (node_assumptions_start assumptions goal settings)
  refine ⟨hassumptions, fun v hv hhyps => ?_⟩
  have hassumed : ∀ k ∈ a.lines, k.rule.isAssumed = true → k.formula.holds v = true := by
    intro k hk hrule
    rw [Rule.isAssumed, Bool.or_eq_true, decide_eq_true_iff] at hrule
    rcases hrule with hrule | hrule
    · apply hv
      rw [hassumptions, ← hnode, Node.assumptions, List.mem_map]
      exact ⟨k, List.mem_filter.mpr ⟨hk, decide_eq_true hrule⟩, rfl⟩
    · exact hhyps k hk hrule
  apply a.node.soundAt_search out h v
  intro f hf
  obtain ⟨l, hl, rfl⟩ := Node.mem_formulas.mp hf
  exact ha.sound.holds_of_assumed hassumed hl

/-- A conditional is proved first, and then its antecedent is asked for along
with the assumption. -/
def antecedentAsked : List Action :=
  [.search, .replaceGoal (.conj (.var "P") (.var "Q"))]

theorem antecedentAsked_sound_after :
    let a := (start [.var "P"] (.imp (.var "Q") (.var "P")) default).performAll antecedentAsked
    (∃ out, a.search.1.ending = .proved out) ∧ a.assumptions = [.var "P"] ∧
      ∀ v, v "P" = true → v "Q" = true → a.goal.holds v = true := by
  intro a
  have hfinished : a.search.1.status = .finished := by decide +kernel
  obtain ⟨out, hout⟩ := Run.exists_proved hfinished
  obtain ⟨hassumptions, hsound⟩ := search_sound_after _ _ _ antecedentAsked out hout
  refine ⟨⟨out, hout⟩, hassumptions, fun v hp hq => hsound v ?_ ?_⟩
  · intro f hf
    rw [hassumptions, List.mem_singleton] at hf
    rw [hf]
    exact hp
  · -- the only hypothesis that the first proof has left is `Q`
    have hopen : ∀ l ∈ a.lines, l.rule.opensBlock = true → l.formula = .var "Q" := by
      decide +kernel
    intro l hl hrule
    rw [hopen l hl hrule]
    exact hq

/-- The hypothesis of a conditional that was proved from nothing is found as a
goal. -/
theorem search_after_block_unsound :
    let a := (start [] (.imp (.var "P") (.var "P")) default).performAll
      [.search, .replaceGoal (.var "P")]
    ∃ out v, a.search.1.ending = .proved out ∧ a.assumptions = [] ∧ a.goal.holds v = false := by
  intro a
  have hfinished : a.search.1.status = .finished := by decide +kernel
  obtain ⟨out, hout⟩ := Run.exists_proved hfinished
  have hassumptions : a.assumptions = [] := (continues_start [] _ _ _).assumptions
  exact ⟨out, fun _ => false, hout, hassumptions, rfl⟩

end NaturalDeduction
