/-
The searches nested in a search.

A run leads from its start through one state after another
(`Node.ComesTo`).  A node is examined when it stands at the front of the queue
in one of these states (`Node.Examines`), and the searches nested in the run
are those that its passes start (`Node.Nests`).

Main results: what single steps keep holds of every node that is examined
(`Examines.keeps`), and runs whose nested searches have the same results are
the same (`searchWith_congr_started`).
-/
import NaturalDeduction.Proofs.Search.Nodes

namespace NaturalDeduction

namespace Frontier

open Node

variable {search search' : Node → Run} {left : Nat} {f : Frontier} {head : Node}
  {P : List Line → Prop}

/-- A pass at a state whose waiting nodes are known to have `P`. -/
theorem Holds.pass_congr (hf : Holds head P f)
    (h : ∀ lines, head.Expandable lines → P lines →
      ∀ child ∈ Node.started search ⟨lines, head.goal, head.settings⟩,
        search child = search' child) :
    f.pass search head.goal head.settings left = f.pass search' head.goal head.settings left := by
  apply pass_congr_started
  intro child hchild
  obtain ⟨lines, rest, hexp, hstarted⟩ := exists_of_mem_started hchild
  obtain ⟨hlines, hP⟩ := hexp.expandable hf
  exact h lines hlines hP child hstarted

theorem run_congr_started (hkeeps : head.Keeps P)
    (h : ∀ lines, head.Expandable lines → P lines →
      ∀ child ∈ Node.started search ⟨lines, head.goal, head.settings⟩,
        search child = search' child)
    (left : Nat) (f : Frontier) (hf : Holds head P f) :
    f.run search head.goal head.settings left = f.run search' head.goal head.settings left := by
  induction left, f using run_pass_induction search head.goal head.settings with
  | ends left f r hpass => rw [run_eq_pass search', ← hf.pass_congr h, hpass]
  | goesOn left f left' g hpass ih =>
    rw [run_eq_pass search', ← hf.pass_congr h, hpass]
    exact ih (hf.pass hkeeps (hpass ▸ passed_pass search head.goal head.settings left f))

end Frontier

/-! ### States of a run -/

namespace Node

/-- The search from `head` comes to a state with a number of expansions
left. -/
inductive ComesTo (search : Node → Run) (head : Node) : Nat → Frontier → Prop
  | start : ComesTo search head head.settings.iterations (.start head)
  | pass {left left' : Nat} {f g : Frontier} (h : ComesTo search head left f)
      (hpass : f.pass search head.goal head.settings left = .goesOn left' g) :
      ComesTo search head left' g

/-- The search from `head` takes a node from the queue. -/
def Examines (search : Node → Run) (head : Node) (lines : List Line) : Prop :=
  ∃ left f rest, ComesTo search head left f ∧ f.queue.toList = lines :: rest

/-- The search from `head` starts a nested search from `child`. -/
def Nests (search : Node → Run) (head child : Node) : Prop :=
  ∃ left f, ComesTo search head left f ∧ child ∈ f.started search head.goal head.settings left

variable {search search' : Node → Run} {head child : Node} {P : List Line → Prop}

theorem ComesTo.holds {left : Nat} {f : Frontier} (hkeeps : head.Keeps P) (hhead : P head.lines)
    (h : ComesTo search head left f) : Frontier.Holds head P f := by
  induction h with
  | start => exact Frontier.holds_start hhead
  | @pass left left' f g _ hpass ih =>
    apply ih.pass hkeeps
    rw [← hpass]
    exact Frontier.passed_pass search head.goal head.settings left f

/-- What single steps keep holds of every node that is examined. -/
theorem Examines.keeps {lines : List Line} (hkeeps : head.Keeps P) (hhead : P head.lines)
    (h : Examines search head lines) : head.lines <+: lines ∧ P lines := by
  obtain ⟨left, f, rest, hcomes, hqueue⟩ := h
  exact hcomes.holds hkeeps hhead lines (by simp [hqueue])

/-- A nested search is started for a node that extends the head and can be
expanded. -/
theorem Nests.exists_started (hkeeps : head.Keeps P) (hhead : P head.lines)
    (h : Nests search head child) :
    ∃ lines, head.Expandable lines ∧ P lines ∧
      child ∈ started search ⟨lines, head.goal, head.settings⟩ := by
  obtain ⟨left, f, hcomes, hchild⟩ := h
  obtain ⟨lines, rest, hexp, hstarted⟩ := Frontier.exists_of_mem_started hchild
  obtain ⟨hlines, hP⟩ := hexp.expandable (hcomes.holds hkeeps hhead)
  exact ⟨lines, hlines, hP, hstarted⟩

/-- The searches for the head are nested in the search from it. -/
theorem nests_of_mem_started (hincomplete : head.isComplete = false)
    (hshort : head.lines.length ≤ head.settings.maxLines) (h : child ∈ head.started search) :
    Nests search head child := by
  obtain ⟨left, hleft⟩ := Nat.exists_eq_succ_of_ne_zero (Nat.ne_of_gt head.settings.iterations_pos)
  refine ⟨_, _, .start, ?_⟩
  rw [hleft, Frontier.started_of_expands ⟨rfl, hincomplete, hshort⟩]
  exact h

/-- **A search depends only on the nested searches that it starts.** -/
theorem searchWith_congr_started (hkeeps : head.Keeps P) (hhead : P head.lines)
    (h : ∀ lines, head.Expandable lines → P lines →
      ∀ child ∈ started search ⟨lines, head.goal, head.settings⟩, search child = search' child) :
    head.searchWith search = head.searchWith search' :=
  Frontier.run_congr_started hkeeps h _ _ (Frontier.holds_start hhead)

end Node

end NaturalDeduction
