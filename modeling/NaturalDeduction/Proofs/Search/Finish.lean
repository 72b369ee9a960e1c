/-
Nodes that finish a search.

When a node is expanded, the search ends there if some candidate states the
goal.  `Finishes search n` says when this is so, in terms of formulas and of
the nested searches that find their goals: neither the order of the candidates
nor what the proofs look like plays a part.  At a node that does not finish,
the children are the new single steps, which do not depend on the settings
(`children`).

Main result: `Frontier.run_of_front`, what a run does with the node at the
front of its queue.
-/
import NaturalDeduction.Proofs.Search.Numbering

namespace NaturalDeduction

namespace Node

variable {search : Node → Run} {n : Node}

/-- The search from a node finds a proof. -/
def Proves (search : Node → Run) (n : Node) : Prop :=
  ∃ out, (search n).ending = .proved out

/-- A node at which some candidate states the goal. -/
inductive Finishes (search : Node → Run) (n : Node) : Prop
  | single (h : OneStep (formulas n.lines) n.goal n.goal)
  | disjElim {l : Line} {a b : Formula} (hl : l ∈ n.lines) (hf : l.formula = .disj a b)
      (hclosed : Line.hasOpenBlock n.lines .disjHypothesis = false)
      (h₁ : Proves search (n.assuming (n.disjHypothesis l a) n.goal))
      (h₂ : Proves search (n.assuming (n.disjHypothesis l b) n.goal))
  | conditional {a b : Formula} (hgoal : n.goal = .imp a b)
      (hclosed : Line.hasOpenBlock n.lines .conditionalHypothesis = false)
      (h : Proves search (n.assuming (n.conditionalHypothesis a) b))

theorem Offers.finishes {e : Extension} (he : n.Offers search e)
    (hgoal : e.last.formula = n.goal) : n.Finishes search := by
  cases he with
  | single hl => exact .single (hgoal ▸ hl.oneStep)
  | disjElim hl hf _ hclosed h₁ h₂ => exact .disjElim hl hf hclosed ⟨_, h₁⟩ ⟨_, h₂⟩
  | conditional himp _ hclosed hout _ => exact .conditional himp hclosed ⟨_, hout⟩

theorem Finishes.exists_offers (hnum : Line.WellNumbered n.lines)
    (hincomplete : n.isComplete = false) (hanswer : NestedAnswer search n) (h : n.Finishes search) :
    ∃ e, n.Offers search e ∧ e.last.formula = n.goal := by
  cases h with
  | single h =>
    obtain ⟨l, hl, hf⟩ := h.exists_isStep hnum
    exact ⟨_, .single hl, hf⟩
  | disjElim hl hf hclosed h₁ h₂ =>
    obtain ⟨out₁, h₁⟩ := h₁
    obtain ⟨out₂, h₂⟩ := h₂
    exact ⟨_, .disjElim hl hf hincomplete hclosed h₁ h₂, rfl⟩
  | @conditional a b hgoal hclosed h =>
    obtain ⟨out, hout⟩ := h
    obtain ⟨added, hadded, hdrop⟩ := (hanswer.conditional a b).eq_append hout
    have hstated := ((hanswer.conditional a b).continues out hout).2.2
    rw [hadded, ← hdrop] at hstated
    obtain ⟨e, he⟩ := exists_conditionalBlock hstated
    refine ⟨e, .conditional hgoal hincomplete hclosed hout he, ?_⟩
    obtain ⟨earlier, -, rfl⟩ := conditionalBlock_eq_ok_iff.mp he
    rfl

theorem finishes_of_find?_eq_some {found : Found} {e : Extension}
    (hfound : n.candidates search = .ok found)
    (he : found.candidates.find? (fun e => decide (e.last.formula = n.goal)) = some e) :
    n.Finishes search := by
  obtain ⟨hoffers, hgoal⟩ := offers_of_find?_eq_some hfound he
  exact hoffers.finishes hgoal

theorem not_finishes_of_find?_eq_none {found : Found} (hnum : Line.WellNumbered n.lines)
    (hincomplete : n.isComplete = false) (hanswer : NestedAnswer search n)
    (hfound : n.candidates search = .ok found)
    (hnone : found.candidates.find? (fun e => decide (e.last.formula = n.goal)) = none) :
    ¬ n.Finishes search := by
  intro h
  obtain ⟨e, he, hgoal⟩ := h.exists_offers hnum hincomplete hanswer
  have hnew : n.isNew e = true := by
    rw [isNew_iff, hgoal]
    exact states_eq_false_iff.mp hincomplete
  have hmem := (mem_candidates_iff hfound).mpr ⟨he, hnew⟩
  exact absurd hgoal (by simpa using List.find?_eq_none.mp hnone e hmem)

/-- **What expanding a node comes to.**  It ends the search, or the children
are the new single steps. -/
theorem expand_cases (hnum : Line.WellNumbered n.lines) (hincomplete : n.isComplete = false)
    (hanswer : NestedAnswer search n) :
    ∃ found, n.candidates search = .ok found ∧
      (n.Finishes search ∧
          (∃ e, found.candidates.find? (fun e => decide (e.last.formula = n.goal)) = some e) ∨
        ¬ n.Finishes search ∧
          found.candidates.find? (fun e => decide (e.last.formula = n.goal)) = none ∧
          found.candidates = n.newSteps) := by
  obtain ⟨found, hfound⟩ := exists_candidates hnum hanswer
  refine ⟨found, hfound, ?_⟩
  rcases hfind : found.candidates.find? (fun e => decide (e.last.formula = n.goal)) with - | e
  · have hnone : ∀ e ∈ found.candidates, e.last.formula ≠ n.goal := by
      simpa using List.find?_eq_none.mp hfind
    exact .inr ⟨not_finishes_of_find?_eq_none hnum hincomplete hanswer hfound hfind, hfind,
      candidates_eq_newSteps hfound hincomplete hnone⟩
  · exact .inl ⟨finishes_of_find?_eq_some hfound hfind, e, hfind⟩

/-- The nodes that a node gives rise to when it does not finish. -/
def children (goal : Formula) (lines : List Line) : List (List Line) :=
  (newSteps ⟨lines, goal, default⟩).map fun e => lines ++ e.lines

theorem mem_children_iff {goal : Formula} {lines child : List Line}
    (hnum : Line.WellNumbered lines) :
    child ∈ children goal lines ↔
      ∃ l, IsStep lines goal l ∧ l.formula ∉ formulas lines ∧ child = lines ++ [l] := by
  rw [children, List.mem_map]
  constructor
  · rintro ⟨e, he, rfl⟩
    obtain ⟨l, hl, hnew, rfl⟩ := (mem_newSteps_iff hnum).mp he
    exact ⟨l, hl, hnew, rfl⟩
  · rintro ⟨l, hl, hnew, rfl⟩
    exact ⟨.single l, (mem_newSteps_iff hnum).mpr ⟨l, hl, hnew, rfl⟩, rfl⟩

end Node

namespace Frontier

open Node

/-- What is known of the nodes that wait in a search from an incomplete head. -/
def Open (head : Node) (lines : List Line) : Prop :=
  Line.WellNumbered lines ∧ head.goal ∉ formulas lines

theorem keeps_open (head : Node) : head.Keeps (Open head) :=
  head.keeps_wellNumbered.and head.keeps_incomplete

/-- **What a run does with the node at the front of its queue.**  If the node
finishes, the run ends there with a proof; if not, its children are put behind
the rest. -/
theorem run_of_front {goal : Formula} {settings : Settings} {f : Frontier} {lines : List Line}
    {rest : List (List Line)} (left : Nat) (hf : Expands goal settings f lines rest)
    (hnum : Line.WellNumbered lines) :
    Finishes Node.search ⟨lines, goal, settings⟩ ∧
        (∃ out, (f.run Node.search goal settings (left + 1)).ending = .proved out) ∨
      ¬ Finishes Node.search ⟨lines, goal, settings⟩ ∧
        ∃ g : Frontier, g.queue.toList = rest ++ admitted f.seen (children goal lines) ∧
          g.seen = noted f.seen (children goal lines) ∧ g.lastLength = lines.length ∧
          f.run Node.search goal settings (left + 1) = g.run Node.search goal settings left := by
  obtain ⟨found, hfound, ⟨hfin, e, he⟩ | ⟨hfin, hnone, hsteps⟩⟩ :=
    expand_cases (n := ⟨lines, goal, settings⟩) hnum hf.incomplete (nestedAnswer_search hnum)
  · exact .inl ⟨hfin, _, run_of_finish hf hfound he⟩
  · obtain ⟨g, hqueue, hseen, hlast, hrun⟩ := run_of_expand left hf hfound hnone
    rw [hsteps] at hqueue hseen
    exact .inr ⟨hfin, g, hqueue, hseen, hlast, hrun⟩

end Frontier

end NaturalDeduction
