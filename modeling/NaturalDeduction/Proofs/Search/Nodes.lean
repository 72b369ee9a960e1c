/-
The nodes of a search.

A search queues a node only when none of its parent's candidates states the
goal; then the candidates are single lines (`candidates_eq_newSteps`).  So
every node of a search from `head` is `head` with lines added one by one, each
by a rule and each with a new formula that is not the goal.  A property that
`head` has and that such lines keep (`Node.Keeps`) is a property of every node.

Two theorems say what is known of the node at which a search ends:
`search_proved` for a search that finds a proof, `search_broken` for one that
breaks off.  `search_added` says the former of the lines behind the head.
-/
import NaturalDeduction.Proofs.Search.Equation

namespace NaturalDeduction

theorem Run.exists_proved {r : Run} (h : r.status = .finished) : ∃ out, r.ending = .proved out := by
  rw [Run.status] at h
  rcases hr : r.ending with out | why | fault
  · exact ⟨out, rfl⟩
  · simp [hr] at h
  · simp [hr] at h

theorem Run.ending_of_status {r : Run} {why : Halt} (h : r.status = .halted why) :
    r.ending = .halted why := by
  rw [Run.status] at h
  rcases hr : r.ending with out | why' | fault
  · simp [hr] at h
  · simpa [hr] using h
  · simp [hr] at h

namespace Node

/-- A node of a search from `head` that is expanded. -/
structure Expandable (head : Node) (lines : List Line) : Prop where
  extends_head : head.lines <+: lines
  short : lines.length ≤ head.settings.maxLines
  incomplete : head.goal ∉ formulas lines

/-- `P` is kept by the lines that a search from `head` adds to its nodes. -/
def Keeps (head : Node) (P : List Line → Prop) : Prop :=
  ∀ lines l, head.Expandable lines → P lines → IsStep lines head.goal l →
    l.formula ∉ formulas lines → l.formula ≠ head.goal → P (lines ++ [l])

theorem keeps_true (head : Node) : head.Keeps fun _ => True :=
  fun _ _ _ _ _ _ _ => trivial

theorem Keeps.and {head : Node} {P Q : List Line → Prop} (hP : head.Keeps P) (hQ : head.Keeps Q) :
    head.Keeps fun lines => P lines ∧ Q lines :=
  fun lines l hlines h hl hnew hgoal =>
    ⟨hP lines l hlines h.1 hl hnew hgoal, hQ lines l hlines h.2 hl hnew hgoal⟩

/-- A node stays incomplete, as the lines added do not state the goal. -/
theorem keeps_incomplete (head : Node) : head.Keeps fun lines => head.goal ∉ formulas lines := by
  intro lines l _ hincomplete _ _ hgoal
  rw [formulas_append, List.mem_append]
  rintro (hmem | hmem)
  · exact hincomplete hmem
  · exact hgoal (by simpa [formulas, eq_comm] using hmem)

theorem Expandable.length_le {head : Node} {lines : List Line} (h : head.Expandable lines) :
    head.lines.length ≤ lines.length :=
  h.extends_head.length_le

end Node

namespace Frontier

open Node

variable {search : Node → Run} {head : Node} {P : List Line → Prop}

/-- The nodes that wait in a search from `head` extend `head` and have `P`. -/
def Holds (head : Node) (P : List Line → Prop) (f : Frontier) : Prop :=
  ∀ lines ∈ f.queue.toList, head.lines <+: lines ∧ P lines

theorem Expands.expandable {f : Frontier} {lines : List Line} {rest : List (List Line)}
    (hf : Holds head P f) (h : Expands head.goal head.settings f lines rest) :
    head.Expandable lines ∧ P lines := by
  obtain ⟨hext, hP⟩ := hf lines (by simp [h.queue])
  exact ⟨⟨hext, h.short, states_eq_false_iff.mp h.incomplete⟩, hP⟩

/-- The children of a node that does not end the search have what single steps
keep. -/
theorem Holds.child {f : Frontier} {lines child : List Line} {rest : List (List Line)}
    {found : Found} (hkeeps : head.Keeps P) (hf : Holds head P f)
    (hexp : Expands head.goal head.settings f lines rest)
    (hfound : candidates search ⟨lines, head.goal, head.settings⟩ = .ok found)
    (hnone : found.candidates.find? (fun e => decide (e.last.formula = head.goal)) = none)
    (h : child ∈ found.candidates.map fun e => lines ++ e.lines) :
    head.lines <+: child ∧ P child := by
  obtain ⟨hlines, hP⟩ := hexp.expandable hf
  obtain ⟨e, he, rfl⟩ := List.mem_map.mp h
  obtain ⟨hoffers, hnew⟩ := (mem_candidates_iff hfound).mp he
  have hgoal : e.last.formula ≠ head.goal := by
    simpa using List.find?_eq_none.mp hnone e he
  rcases hoffers.goal_or_single with hgoal' | ⟨l, hstep, rfl⟩
  · exact absurd hgoal' hgoal
  · exact ⟨hlines.extends_head.trans (List.prefix_append lines _),
      hkeeps lines l hlines hP hstep (isNew_iff.mp hnew) hgoal⟩

/-- A pass after which the search goes on keeps what single steps keep. -/
theorem Holds.pass {left left' : Nat} {f g : Frontier} (hkeeps : head.Keeps P)
    (hf : Holds head P f)
    (h : Passed search head.goal head.settings left f (.goesOn left' g)) : Holds head P g := by
  intro lines hl
  cases h with
  | discarded hqueue => exact hf lines (by simp [hqueue, hl])
  | expanded hexp hfound hnone hqueue =>
    rw [hqueue] at hl
    rcases List.mem_append.mp hl with hl | hl
    · exact hf lines (by simp [hexp.queue, hl])
    · exact hf.child hkeeps hexp hfound hnone (mem_of_mem_admitted hl)

theorem holds_start (h : P head.lines) : Holds head P (start head) := by
  intro lines hl
  obtain rfl : lines = head.lines := by simpa [start] using hl
  exact ⟨List.prefix_refl _, h⟩

theorem run_proved {left : Nat} {f : Frontier} {out : List Line} (hkeeps : head.Keeps P)
    (hf : Holds head P f)
    (h : (f.run search head.goal head.settings left).ending = .proved out) :
    (head.lines <+: out ∧ P out ∧ head.goal ∈ formulas out) ∨
      ∃ lines found e, head.Expandable lines ∧ P lines ∧
        candidates search ⟨lines, head.goal, head.settings⟩ = .ok found ∧
        found.candidates.find? (fun e => decide (e.last.formula = head.goal)) = some e ∧
        out = lines ++ e.lines := by
  induction left, f using run_induction search head.goal head.settings with
  | ends left f r hpass =>
    cases hpass with
    | exhausted _ hr | spent _ hr | broke _ _ hr =>
      rw [hr] at h
      cases h
    | @complete _ _ _ lines _ hqueue hstates hr =>
      obtain ⟨hext, hP⟩ := hf lines (by simp [hqueue])
      obtain rfl := Ending.proved.inj (hr.symm.trans h)
      exact .inl ⟨hext, hP, states_eq_true_iff.mp hstates⟩
    | finished hexp hfound he hr =>
      obtain rfl := Ending.proved.inj (hr.symm.trans h)
      obtain ⟨hlines, hP⟩ := hexp.expandable hf
      exact .inr ⟨_, _, _, hlines, hP, hfound, he, rfl⟩
  | goesOn left f left' g hpass ih => exact ih (hf.pass hkeeps hpass) h

theorem run_broken {left : Nat} {f : Frontier} {fault : Fault} (hkeeps : head.Keeps P)
    (hf : Holds head P f)
    (h : (f.run search head.goal head.settings left).ending = .broken fault) :
    ∃ lines, head.Expandable lines ∧ P lines ∧
      candidates search ⟨lines, head.goal, head.settings⟩ = .error fault := by
  induction left, f using run_induction search head.goal head.settings with
  | ends left f r hpass =>
    cases hpass with
    | exhausted _ hr | complete _ _ hr | spent _ hr | finished _ _ _ hr =>
      rw [hr] at h
      cases h
    | broke hexp hfound hr =>
      obtain rfl := Ending.broken.inj (hr.symm.trans h)
      obtain ⟨hlines, hP⟩ := hexp.expandable hf
      exact ⟨_, hlines, hP, hfound⟩
  | goesOn left f left' g hpass ih => exact ih (hf.pass hkeeps hpass) h

end Frontier

namespace Node

variable {head : Node} {P : List Line → Prop}

/-- **How a search finds a proof.**  It ends at a node that states the goal, or
with the first candidate of an expanded node that does. -/
theorem search_proved {out : List Line} (hkeeps : head.Keeps P) (hhead : P head.lines)
    (h : head.search.ending = .proved out) :
    (head.lines <+: out ∧ P out ∧ head.goal ∈ formulas out) ∨
      ∃ lines found e, head.Expandable lines ∧ P lines ∧
        candidates Node.search ⟨lines, head.goal, head.settings⟩ = .ok found ∧
        found.candidates.find? (fun e => decide (e.last.formula = head.goal)) = some e ∧
        out = lines ++ e.lines := by
  rw [search_eq] at h
  exact Frontier.run_proved hkeeps (Frontier.holds_start hhead) h

/-- What a search adds to its head in order to find a proof: the lines of a
node, and behind them a candidate if the node does not state the goal. -/
theorem search_added {added : List Line} (hkeeps : head.Keeps P) (hhead : P head.lines)
    (h : head.search.ending = .proved (head.lines ++ added)) :
    P (head.lines ++ added) ∨
      ∃ more e, added = more ++ e.lines ∧ head.Expandable (head.lines ++ more) ∧
        P (head.lines ++ more) ∧
        Offers Node.search ⟨head.lines ++ more, head.goal, head.settings⟩ e := by
  rcases search_proved hkeeps hhead h with
    ⟨-, hP, -⟩ | ⟨lines, found, e, hlines, hP, hfound, he, heq⟩
  · exact .inl hP
  · obtain ⟨more, rfl⟩ := hlines.extends_head
    rw [List.append_assoc] at heq
    exact .inr ⟨more, e, List.append_cancel_left heq, hlines, hP,
      (offers_of_find?_eq_some hfound he).1⟩

/-- How a search breaks off: at an expanded node whose candidates could not be
worked out. -/
theorem search_broken {fault : Fault} (hkeeps : head.Keeps P) (hhead : P head.lines)
    (h : head.search.ending = .broken fault) :
    ∃ lines, head.Expandable lines ∧ P lines ∧
      candidates Node.search ⟨lines, head.goal, head.settings⟩ = .error fault := by
  rw [search_eq] at h
  exact Frontier.run_broken hkeeps (Frontier.holds_start hhead) h

end Node

end NaturalDeduction
