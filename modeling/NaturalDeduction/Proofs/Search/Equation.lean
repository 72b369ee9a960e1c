/-
The equation of the search.

`Node.search` hands to its passes a search that answers only for nodes with
less room, which is what makes it a definition.  The guard is never felt: a
node that is expanded has at most `maxLines` lines and at least as many as the
head, so a nested search, which starts with one line more under a bound that
is no larger, has less room than the head.  Hence the search satisfies the
equation one would like to write (`Node.search_eq`):

    head.search = head.searchWith Node.search.

Everything else is proved from this equation, by induction on the room
(`Node.search_induction`).
-/
import NaturalDeduction.Proofs.Search.Started

namespace NaturalDeduction

namespace Frontier

variable {search search' : Node → Run} {goal : Formula} {settings : Settings}
  {P : List Line → Prop}

theorem pass_congr
    (hsearch : ∀ lines hypothesis aim, P lines → lines.length ≤ settings.maxLines →
      search (Node.assuming ⟨lines, goal, settings⟩ hypothesis aim)
        = search' (Node.assuming ⟨lines, goal, settings⟩ hypothesis aim))
    {left : Nat} {f : Frontier} (hf : ∀ lines ∈ f.queue.toList, P lines) :
    f.pass search goal settings left = f.pass search' goal settings left := by
  apply pass_congr_started
  intro child hchild
  obtain ⟨lines, rest, hexp, hstarted⟩ := exists_of_mem_started hchild
  obtain ⟨hypothesis, aim, rfl, -, -⟩ := Node.exists_of_mem_started hstarted
  exact hsearch lines hypothesis aim (hf lines (by simp [hexp.queue])) hexp.short

/-- Runs whose nested searches have the same results are the same.  `P` is
what is known of every node of the run. -/
theorem run_congr
    (hsearch : ∀ lines hypothesis aim, P lines → lines.length ≤ settings.maxLines →
      search (Node.assuming ⟨lines, goal, settings⟩ hypothesis aim)
        = search' (Node.assuming ⟨lines, goal, settings⟩ hypothesis aim))
    (hstep : ∀ lines (e : Extension), P lines → P (lines ++ e.lines))
    (left : Nat) (f : Frontier) (hf : ∀ lines ∈ f.queue.toList, P lines) :
    f.run search goal settings left = f.run search' goal settings left := by
  induction left, f using run_pass_induction search goal settings with
  | ends left f r h => rw [run_eq_pass search', ← pass_congr hsearch hf, h]
  | goesOn left f left' g h ih =>
    rw [run_eq_pass search', ← pass_congr hsearch hf, h]
    apply ih
    have hpass := h ▸ passed_pass search goal settings left f
    intro lines hl
    cases hpass with
    | discarded hqueue =>
      exact hf lines (by simp [hqueue, hl])
    | expanded hexp _ _ hqueue =>
      rw [hqueue] at hl
      rcases List.mem_append.mp hl with hl | hl
      · exact hf lines (by simp [hexp.queue, hl])
      · obtain ⟨e, -, rfl⟩ := List.mem_map.mp (mem_of_mem_admitted hl)
        exact hstep _ e (hf _ (by simp [hexp.queue]))

end Frontier

namespace Node

/-! ### The equation -/

/-- A search nested in a run from `head` has less room than `head`. -/
theorem assuming_room_lt {head : Node} {lines : List Line} (hypothesis : Line) (goal : Formula)
    (hlong : head.lines.length ≤ lines.length)
    (hshort : lines.length ≤ head.settings.maxLines) :
    (assuming ⟨lines, head.goal, head.settings⟩ hypothesis goal).room < head.room := by
  have hle := head.settings.nested_maxLines_le
  simp only [room, assuming, List.length_append, List.length_singleton]
  omega

/-- **The search from a node runs its nested searches by itself.** -/
theorem search_eq (head : Node) : head.search = head.searchWith Node.search := by
  rw [Node.search, searchWith, searchWith]
  -- the guard on the room never fails on nodes that extend the head
  apply Frontier.run_congr (P := fun lines => head.lines.length ≤ lines.length)
  · intro lines hypothesis goal hlong hshort
    rw [dif_pos (assuming_room_lt hypothesis goal hlong hshort)]
  · intro lines e hlong
    rw [List.length_append]
    omega
  · intro lines hl
    obtain rfl : lines = head.lines := by simpa [Frontier.start] using hl
    exact Nat.le_refl _

/-- Induction on the room: what holds of a search whenever it holds of the
searches nested in it holds of every search. -/
theorem search_induction {motive : Node → Prop}
    (step : ∀ head : Node,
      (∀ lines hypothesis goal, head.lines.length ≤ lines.length →
        lines.length ≤ head.settings.maxLines →
        motive (assuming ⟨lines, head.goal, head.settings⟩ hypothesis goal)) →
      motive head)
    (head : Node) : motive head := by
  apply step
  intro lines hypothesis goal hlong hshort
  have := assuming_room_lt hypothesis goal hlong hshort
  exact search_induction step (assuming ⟨lines, head.goal, head.settings⟩ hypothesis goal)
termination_by head.room

end Node

end NaturalDeduction
