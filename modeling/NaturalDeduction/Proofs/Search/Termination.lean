/-
The search ends.

A search runs nested searches, and these run nested searches in their turn.
That all of it comes to an end is said here without any bound on the number of
passes or the depth of the nesting.  `Frontier.Computes` gives the rules by
which the result of a run is computed, pass by pass; the rules for a pass have
a premise for every nested search that the pass starts.  There are finitely
many of these, and derivations are well founded.  So a search that went on for
ever, in its own loop or through ever deeper nesting, would compute nothing.

Every search does compute a result, for two reasons.

* A pass after which the search goes on spends one of the expansions that are
  left, or it leaves their number and shortens the queue (`pass_measure`).
  That a pass may queue many nodes does not matter: then it spends.
* A nested search is started for a node within the bound on lines.  It starts
  with more lines than the search around it, under a bound that is no larger
  (`Nests.lines_lt`); so it has less room.

That blocks of one kind never nest is not used, since it need not be so.  Lines
from outside may hold a discharge that cites a hypothesis still to come; such a
hypothesis never counts as open, and then searches of one kind can nest.

Main result: `search_terminates`.
-/
import NaturalDeduction.Proofs.Search.Nested

namespace NaturalDeduction

namespace Frontier

open Node

/-! ### How a result is computed -/

/-- A run that has come to the state `f`, with `left` expansions left, computes
a result. -/
inductive Computes : Formula → Settings → Nat → Frontier → Run → Prop
  /-- A pass ends the run, once the searches that it starts have their results. -/
  | ends {goal : Formula} {settings : Settings} {left : Nat} {f : Frontier} {r : Run}
      {nested : Node → Run}
      (hnested : ∀ child ∈ f.started nested goal settings left,
        Computes child.goal child.settings child.settings.iterations (.start child)
          (nested child))
      (hpass : f.pass nested goal settings left = .ends r) :
      Computes goal settings left f r
  /-- A pass leads to another state, from which the run computes its result. -/
  | goesOn {goal : Formula} {settings : Settings} {left left' : Nat} {f g : Frontier} {r : Run}
      {nested : Node → Run}
      (hnested : ∀ child ∈ f.started nested goal settings left,
        Computes child.goal child.settings child.settings.iterations (.start child)
          (nested child))
      (hpass : f.pass nested goal settings left = .goesOn left' g)
      (hrest : Computes goal settings left' g r) :
      Computes goal settings left f r

end Frontier

namespace Node

/-- The search from `head` computes a result. -/
def Evaluates (head : Node) (r : Run) : Prop :=
  Frontier.Computes head.goal head.settings head.settings.iterations (.start head) r

end Node

namespace Frontier

open Node

variable {search : Node → Run} {goal : Formula} {settings : Settings} {left left' : Nat}
  {f g : Frontier} {r : Run}

/-! ### The result is unique -/

/-- A pass that is given the right results of the searches it starts. -/
theorem pass_eq_of_nested {nested : Node → Run}
    (h : ∀ child ∈ f.started nested goal settings left,
      nested child = child.searchWith Node.search) :
    f.pass nested goal settings left = f.pass Node.search goal settings left := by
  apply pass_congr_started
  intro child hchild
  rw [h child hchild, ← search_eq]

/-- What is computed is what the run gives. -/
theorem Computes.eq_run (h : Computes goal settings left f r) :
    r = f.run Node.search goal settings left := by
  -- by induction the nested results are right, so the pass is the one of the run
  induction h with
  | ends _ hpass ih => rw [run_eq_pass, ← pass_eq_of_nested ih, hpass]
  | goesOn _ hpass _ ih ih' =>
    rw [run_eq_pass, ← pass_eq_of_nested ih, hpass]
    exact ih'

/-! ### What gets smaller -/

/-- A pass spends an expansion or shortens the queue. -/
theorem pass_measure (h : f.pass search goal settings left = .goesOn left' g) :
    left' + 1 = left ∨ left' = left ∧ g.queue.toList.length + 1 = f.queue.toList.length := by
  have hpassed := passed_pass search goal settings left f
  rw [h] at hpassed
  cases hpassed with
  | discarded hqueue => exact .inr ⟨rfl, by simp [hqueue]⟩
  | expanded => exact .inl rfl

/-- A pass counts the nested searches that it starts. -/
theorem pass_subSearches (h : f.pass search goal settings left = .goesOn left' g) :
    g.stats.subSearches
      = f.stats.subSearches + (f.started search goal settings left).length := by
  have hpassed := passed_pass search goal settings left f
  rw [h] at hpassed
  cases hpassed with
  | discarded hqueue _ hlong _ _ hstats =>
    -- a node that is too long is not expanded
    have hnone : f.started search goal settings left = [] := by
      apply List.eq_nil_iff_forall_not_mem.mpr
      intro child hchild
      obtain ⟨lines, rest, hexp, -⟩ := exists_of_mem_started hchild
      obtain ⟨rfl, -⟩ := List.cons.inj (hqueue.symm.trans hexp.queue)
      exact absurd hlong (Nat.not_lt.mpr hexp.short)
    rw [hnone, hstats]
    rfl
  | expanded hexp hfound _ _ _ _ hstats =>
    rw [started_of_expands hexp, ← candidates_subSearches hfound, hstats]
    rfl

end Frontier

namespace Node

variable {search : Node → Run} {head child : Node}

/-- A nested search starts from a node of the run within the bound on lines and
a hypothesis. -/
theorem Nests.exists_assuming (h : Nests search head child) :
    ∃ lines hypothesis goal, head.lines.length ≤ lines.length ∧
      lines.length ≤ head.settings.maxLines ∧
      child = assuming ⟨lines, head.goal, head.settings⟩ hypothesis goal := by
  obtain ⟨lines, hlines, -, hchild⟩ := h.exists_started head.keeps_true trivial
  obtain ⟨hypothesis, goal, rfl, -, -⟩ := exists_of_mem_started hchild
  exact ⟨lines, hypothesis, goal, hlines.length_le, hlines.short, rfl⟩

theorem Nests.lines_lt (h : Nests search head child) :
    head.lines.length < child.lines.length ∧
      child.settings.maxLines ≤ head.settings.maxLines := by
  obtain ⟨lines, hypothesis, goal, hlong, -, rfl⟩ := h.exists_assuming
  constructor
  · show head.lines.length < (lines ++ [hypothesis]).length
    rw [List.length_append, List.length_singleton]
    omega
  · exact head.settings.nested_maxLines_le

/-! ### A result is computed -/

/-- A run computes its result if the searches nested in it compute theirs. -/
theorem ComesTo.computes {left : Nat} {f : Frontier}
    (hnested : ∀ child, Nests Node.search head child → child.Evaluates child.search)
    (h : ComesTo Node.search head left f) :
    f.Computes head.goal head.settings left
      (f.run Node.search head.goal head.settings left) := by
  induction left, f using Frontier.run_pass_induction Node.search head.goal head.settings with
  | ends left f r hpass =>
    exact .ends (fun child hchild => hnested child ⟨left, f, h, hchild⟩) hpass
  | goesOn left f left' g hpass ih =>
    exact .goesOn (fun child hchild => hnested child ⟨left, f, h, hchild⟩) hpass
      (ih (h.pass hpass))

theorem evaluates_search (head : Node) : head.Evaluates head.search := by
  induction head using search_induction with
  | step head ih =>
    rw [search_eq]
    apply ComesTo.computes _ .start
    intro child hchild
    -- a nested search has less room, so the induction reaches it
    obtain ⟨lines, hypothesis, goal, hlong, hshort, rfl⟩ := hchild.exists_assuming
    exact ih lines hypothesis goal hlong hshort

end Node

/-- **The search ends.**  From every node, whatever its lines are, the search
computes a result, and only one.  Each nested search starts with more lines
than the search that starts it and under no larger a bound on lines; each pass
after which the search goes on spends one of the expansions left or shortens
the queue, and counts the nested searches that it started. -/
theorem search_terminates (head : Node) :
    head.Evaluates head.search ∧
    (∀ r, head.Evaluates r → r = head.search) ∧
    (∀ child, head.Nests Node.search child →
      head.lines.length < child.lines.length ∧
        child.settings.maxLines ≤ head.settings.maxLines) ∧
    (∀ left left' f g, head.ComesTo Node.search left f →
      f.pass Node.search head.goal head.settings left = .goesOn left' g →
        (left' + 1 = left ∨
          left' = left ∧ g.queue.toList.length + 1 = f.queue.toList.length) ∧
        g.stats.subSearches = f.stats.subSearches
          + (f.started Node.search head.goal head.settings left).length) := by
  refine ⟨head.evaluates_search, ?_, fun _ => Node.Nests.lines_lt, ?_⟩
  · intro r hr
    rw [Node.search_eq]
    exact Frontier.Computes.eq_run hr
  · intro left left' f g _ hpass
    exact ⟨Frontier.pass_measure hpass, Frontier.pass_subSearches hpass⟩

end NaturalDeduction
