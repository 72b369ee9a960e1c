/-
The order of the queue.

Nodes wait by length: a node is never behind a longer one, all lengths in the
queue lie within one of each other, and none is below the length of the node
taken last (`Frontier.Leveled`).  A pass keeps this, because the children of
the node at the front have one line more than it has (`Leveled.pass`).

So when the front of the queue is too long to be expanded, everything behind it
is too, and the search halts without a proof (`run_of_all_long`).
-/
import NaturalDeduction.Proofs.Search.Nodes

namespace NaturalDeduction

namespace Frontier

variable {search : Node → Run} {goal : Formula} {settings : Settings} {left left' : Nat}
  {f g : Frontier}

/-- The nodes wait by length, within one of each other. -/
structure Leveled (f : Frontier) : Prop where
  sorted : f.queue.toList.Pairwise fun a b => a.length ≤ b.length
  within : ∀ a ∈ f.queue.toList, ∀ b ∈ f.queue.toList, b.length ≤ a.length + 1
  last : ∀ a ∈ f.queue.toList, f.lastLength ≤ a.length

theorem leveled_start (head : Node) : (start head).Leveled where
  sorted := by simp [start]
  within := by simp [start]
  last := by simp [start]

/-- The children of a node that does not end the search have one line more. -/
theorem length_of_mem_children {n : Node} {found : Found} {child : List Line}
    (hfound : n.candidates search = .ok found)
    (hnone : found.candidates.find? (fun e => decide (e.last.formula = n.goal)) = none)
    (h : child ∈ found.candidates.map fun e => n.lines ++ e.lines) :
    child.length = n.lines.length + 1 := by
  obtain ⟨e, he, rfl⟩ := List.mem_map.mp h
  rcases ((Node.mem_candidates_iff hfound).mp he).1.goal_or_single with hgoal | ⟨l, -, rfl⟩
  · exact absurd hgoal (by simpa using List.find?_eq_none.mp hnone e he)
  · simp [Extension.single, Extension.lines]

/-- Putting the children of the front behind the rest keeps the order. -/
theorem leveled_of_children {lines : List Line} {rest children : List (List Line)}
    (hf : f.Leveled) (hqueue : f.queue.toList = lines :: rest)
    (hchildren : ∀ child ∈ children, child.length = lines.length + 1)
    (hg : g.queue.toList = rest ++ children) (hlast : g.lastLength = lines.length) :
    g.Leveled := by
  have hsorted := hf.sorted
  have hwithin := hf.within
  rw [hqueue] at hsorted hwithin
  obtain ⟨hfirst, hrest⟩ := List.pairwise_cons.mp hsorted
  -- all lengths lie between that of the front and one more
  have hge : ∀ a ∈ rest ++ children, lines.length ≤ a.length := by
    intro a ha
    rcases List.mem_append.mp ha with ha | ha
    · exact hfirst a ha
    · have := hchildren a ha
      omega
  have hle : ∀ a ∈ rest ++ children, a.length ≤ lines.length + 1 := by
    intro a ha
    rcases List.mem_append.mp ha with ha | ha
    · exact hwithin lines List.mem_cons_self a (List.mem_cons_of_mem lines ha)
    · have := hchildren a ha
      omega
  constructor
  · rw [hg, List.pairwise_append]
    refine ⟨hrest, List.pairwise_of_forall_mem_list fun a ha b hb => ?_, fun a ha b hb => ?_⟩
    · exact Nat.le_of_eq ((hchildren a ha).trans (hchildren b hb).symm)
    · rw [hchildren b hb]
      exact hle a (List.mem_append_left children ha)
  · intro a ha b hb
    rw [hg] at ha hb
    have := hge a ha
    have := hle b hb
    omega
  · intro a ha
    rw [hg] at ha
    rw [hlast]
    exact hge a ha

/-- A pass keeps the order of the queue. -/
theorem Leveled.pass (hf : f.Leveled)
    (h : Passed search goal settings left f (.goesOn left' g)) : g.Leveled := by
  cases h with
  | discarded hqueue _ _ _ hlast =>
    exact leveled_of_children hf hqueue (by simp) (List.append_nil _).symm hlast
  | expanded hexp hfound hnone hqueue _ hlast =>
    refine leveled_of_children hf hexp.queue (fun child hchild => ?_) hqueue hlast
    exact length_of_mem_children hfound hnone (mem_of_mem_admitted hchild)

/-- A search whose waiting nodes are all too long halts. -/
theorem run_of_all_long (search : Node → Run) (left : Nat)
    (h : ∀ lines ∈ f.queue.toList,
      Line.states lines goal = false ∧ settings.maxLines < lines.length) :
    ∃ why, (f.run search goal settings left).ending = .halted why := by
  induction hq : f.queue.toList generalizing f with
  | nil => exact ⟨_, run_of_empty hq⟩
  | cons lines rest ih =>
    obtain ⟨hstates, hlong⟩ := h lines (by simp [hq])
    obtain ⟨g, hg, -, -, hrun⟩ := run_of_long search left hq hstates hlong
    rw [hrun]
    refine ih (fun lines hl => h lines ?_) hg
    rw [hg] at hl
    simp [hq, hl]

end Frontier

end NaturalDeduction
