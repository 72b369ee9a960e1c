/-
How long the proofs are that a search finds.

The bound on lines is a bound on nodes that are expanded.  A proof may be longer:
it is an expanded node and a candidate, and a candidate may be a block with one or
two branches, each of them found by a nested search.

What a search finds has as many lines as its head, or it comes from an expanded
node.  From a node of `j` lines

* a single step leads to `j + 1` lines;
* a conditional proof leads to one line more than its nested search found;
* a disjunction elimination leads to the lines of both nested searches and one
  more, where the `j` lines of the node count once.

How much a nested search can find depends on the blocks that are open there, as no
block is tried inside one of its own kind (`Bounds.ProvesWithin`).  With `m` the
bound on lines, a search finds at most `m + 1` lines inside blocks of both kinds,
`m + 2` inside a disjunction elimination and `2m + 2` inside a conditional proof,
or as many as its head has.

Main result: `search_length_le`.
-/
import NaturalDeduction.Attempt.Basic
import NaturalDeduction.Proofs.Search.Provable

namespace NaturalDeduction

namespace Node

variable {n : Node}

/-! ### Lengths of candidates -/

/-- A nested search keeps the lines of its node. -/
theorem length_le_of_nested {hypothesis : Line} {goal : Formula} {out : List Line}
    (hnum : Line.WellNumbered n.lines) (hnumber : hypothesis.number = n.lines.length)
    (hout : (n.assuming hypothesis goal).search.ending = .proved out) :
    n.lines.length ≤ out.length := by
  obtain ⟨added, rfl, -⟩ := (nestedAnswer_search hnum hypothesis goal hnumber).eq_append hout
  rw [List.length_append]
  exact Nat.le_add_right _ _

theorem length_disjElimBlock (l : Line) {out₁ out₂ : List Line}
    (h₁ : n.lines.length ≤ out₁.length) (h₂ : n.lines.length ≤ out₂.length) :
    (n.lines ++ (n.disjElimBlock l (out₁.drop n.lines.length)
        (out₂.drop n.lines.length)).lines).length + n.lines.length
      = out₁.length + out₂.length + 1 := by
  simp only [disjElimBlock, Extension.lines, List.length_append, List.length_map, List.length_drop,
    List.length_singleton]
  omega

theorem length_conditionalBlock {b : Formula} {out : List Line} {e : Extension}
    (hle : n.lines.length ≤ out.length)
    (he : n.conditionalBlock b (out.drop n.lines.length) = .ok e) :
    (n.lines ++ e.lines).length = out.length + 1 := by
  obtain ⟨earlier, -, rfl⟩ := conditionalBlock_eq_ok_iff.mp he
  simp only [Extension.lines, List.length_append, List.length_drop, List.length_singleton]
  omega

end Node

namespace Bounds

open Node

variable {b : Bounds} {k most : Nat}

/-! ### Lengths of proofs -/

/-- Whatever a search within these bounds proves from `k` lines has at most `most`
lines. -/
def ProvesWithin (b : Bounds) (k most : Nat) : Prop :=
  ∀ n : Node, n.bounds = b → Line.Regular n.lines → n.lines.length = k →
    ∀ out, n.search.ending = .proved out → out.length ≤ most

/-- The length of what comes up at an expanded node. -/
theorem length_le_of_offers {n : Node} {e : Extension} (hregular : Line.Regular n.lines)
    (hsingle : n.lines.length + 1 ≤ most)
    (hdisj : n.bounds.disjOpen = false → 0 < n.lines.length →
      ∃ inner, n.bounds.inDisj.ProvesWithin (n.lines.length + 1) inner ∧
        2 * inner + 1 ≤ most + n.lines.length)
    (hcond : n.bounds.condOpen = false →
      ∃ inner, n.bounds.inCond.ProvesWithin (n.lines.length + 1) inner ∧ inner + 1 ≤ most)
    (he : n.Offers Node.search e) : (n.lines ++ e.lines).length ≤ most := by
  have hnum := hregular.numbered
  cases he with
  | single hl => simpa [Extension.single, Extension.lines] using hsingle
  | @disjElim l a b out₁ out₂ hl _ _ hclosed h₁ h₂ =>
    obtain ⟨inner, hinner, hmost⟩ := hdisj hclosed (List.length_pos_of_mem hl)
    -- both branches are searched for from the node and one hypothesis
    have hbranch : ∀ side out,
        (n.assuming (n.disjHypothesis l side) n.goal).search.ending = .proved out →
        out.length ≤ inner := by
      intro side out hout
      refine hinner _ (bounds_disjHypothesis hregular.settled l side n.goal)
        (hregular.append_singleton rfl rfl) ?_ out hout
      rw [assuming, List.length_append, List.length_singleton]
    have hfirst := hbranch a out₁ h₁
    have hsecond := hbranch b out₂ h₂
    have hlength := length_disjElimBlock l (length_le_of_nested hnum rfl h₁)
      (length_le_of_nested hnum rfl h₂)
    omega
  | @conditional a b out _ hgoal _ hclosed hout he =>
    obtain ⟨inner, hinner, hmost⟩ := hcond hclosed
    have hbranch : out.length ≤ inner := by
      refine hinner _ (bounds_conditionalHypothesis hregular.settled a b)
        (hregular.append_singleton rfl rfl) ?_ out hout
      rw [assuming, List.length_append, List.length_singleton]
    rw [length_conditionalBlock (length_le_of_nested hnum rfl hout) he]
    omega

/-- A bound on what is found from `k` lines, from bounds on what nested searches
find. -/
theorem provesWithin_of_nested (hhead : k ≤ most) (hsingle : b.lines + 1 ≤ most)
    (hdisj : b.disjOpen = false → ∀ j, k ≤ j → 0 < j → j ≤ b.lines →
      ∃ inner, b.inDisj.ProvesWithin (j + 1) inner ∧ 2 * inner + 1 ≤ most + j)
    (hcond : b.condOpen = false → ∀ j, k ≤ j → j ≤ b.lines →
      ∃ inner, b.inCond.ProvesWithin (j + 1) inner ∧ inner + 1 ≤ most) :
    b.ProvesWithin k most := by
  rintro head rfl hregular rfl out hout
  have hkeeps : head.Keeps fun lines => Line.Regular lines ∧
      bounds ⟨lines, head.goal, head.settings⟩ = head.bounds ∧ lines.length ≤ most := by
    intro lines l hlines hP hl _ _
    refine ⟨hP.1.step hl, (Bounds.of_step hl).trans hP.2.1, ?_⟩
    have hshort : lines.length ≤ head.bounds.lines := hlines.short
    rw [List.length_append, List.length_singleton]
    omega
  rcases search_proved hkeeps ⟨hregular, rfl, hhead⟩ hout with
    ⟨-, ⟨-, -, hmost⟩, -⟩ | ⟨lines, found, e, hlines, ⟨hregular', hbounds, -⟩, hfound, he, rfl⟩
  · exact hmost
  · have hoffers := (offers_of_find?_eq_some hfound he).1
    have hshort : lines.length ≤ head.bounds.lines := hlines.short
    refine length_le_of_offers (n := ⟨lines, head.goal, head.settings⟩) hregular' ?_ ?_ ?_ hoffers
    · show lines.length + 1 ≤ most
      omega
    · rw [hbounds]
      exact fun hopen hpos => hdisj hopen lines.length hlines.length_le hpos hshort
    · rw [hbounds]
      exact fun hopen => hcond hopen lines.length hlines.length_le hshort

/-- Inside blocks of both kinds only single steps are left. -/
theorem provesWithin_of_both (hdisj : b.disjOpen = true) (hcond : b.condOpen = true) :
    b.ProvesWithin k (max k (b.lines + 1)) := by
  apply provesWithin_of_nested
  · omega
  · omega
  · simp [hdisj]
  · simp [hcond]

/-- Inside a disjunction elimination a conditional proof may come up, and inside it
no other block. -/
theorem provesWithin_of_disj (hdisj : b.disjOpen = true) :
    b.ProvesWithin k (max k (b.lines + 2)) := by
  apply provesWithin_of_nested
  · omega
  · omega
  · simp [hdisj]
  · intro _ j _ hj
    refine ⟨_, provesWithin_of_both hdisj rfl, ?_⟩
    show max (j + 1) (min b.sub b.lines + 1) + 1 ≤ max k (b.lines + 2)
    omega

/-- Inside a conditional proof a disjunction elimination may come up, and inside its
branches no other block. -/
theorem provesWithin_of_cond (hcond : b.condOpen = true) :
    b.ProvesWithin k (max k (2 * b.lines + 2)) := by
  apply provesWithin_of_nested
  · omega
  · omega
  · intro _ j _ hpos hj
    refine ⟨_, provesWithin_of_both rfl hcond, ?_⟩
    show 2 * max (j + 1) (min b.sub b.lines + 1) + 1 ≤ max k (2 * b.lines + 2) + j
    omega
  · simp [hcond]

/-- **How much a search finds within bounds.** -/
theorem provesWithin (b : Bounds) (k : Nat) :
    b.ProvesWithin k (max k (max (b.lines + 3) (2 * min b.sub b.lines + 4))) := by
  apply provesWithin_of_nested
  · omega
  · omega
  · -- either the branches state the goal at once, or they begin within the nested bound
    intro _ j _ hpos hj
    refine ⟨_, provesWithin_of_disj rfl, ?_⟩
    show 2 * max (j + 1) (min b.sub b.lines + 2) + 1
      ≤ max k (max (b.lines + 3) (2 * min b.sub b.lines + 4)) + j
    omega
  · intro _ j _ hj
    refine ⟨_, provesWithin_of_cond rfl, ?_⟩
    show max (j + 1) (2 * min b.sub b.lines + 2) + 1
      ≤ max k (max (b.lines + 3) (2 * min b.sub b.lines + 4))
    omega

end Bounds

/-! ### Attempts -/

/-- **A bound on the length of proofs.**  If the search of a fresh attempt finds a
proof, the attempt ends with no more lines than it has assumptions, or than the bound
on lines and three, or than twice the bound on lines of nested searches and four,
whichever is most. -/
theorem search_length_le (assumptions : List Formula) (goal : Formula) (settings : Settings)
    (h : (Attempt.start assumptions goal settings).search.1.status = .finished) :
    (Attempt.start assumptions goal settings).search.2.lines.length
      ≤ max assumptions.length
          (max (settings.maxLines + 3) (2 * min settings.subMaxLines settings.maxLines + 4)) := by
  obtain ⟨out, hout⟩ := Run.exists_proved h
  have hhead : (Attempt.start assumptions goal settings).node.search.ending = .proved out := hout
  have hlines : (Attempt.start assumptions goal settings).search.2.lines = out := by
    rw [Attempt.search, Attempt.update, hhead]
  rw [hlines]
  refine Bounds.provesWithin _ _ (Attempt.start assumptions goal settings).node rfl
    (.ofAssumptions assumptions) ?_ out hhead
  show (Line.ofAssumptions assumptions).length = assumptions.length
  rw [Line.ofAssumptions, List.length_mapIdx]

/-- Settings with `m + 1` and `k + 1` as bounds on lines. -/
def lineBounds (m k : Nat) : Settings :=
  { (default : Settings) with
    maxLines := m + 1, subMaxLines := k + 1
    maxLines_pos := Nat.succ_pos m, subMaxLines_pos := Nat.succ_pos k }

/-- A disjunction behind as many lines as may be expanded, whose sides are the goal. -/
def crowdedCases : Attempt :=
  .start [.var "Q", .var "Q", .var "Q", .var "Q", .disj (.var "P") (.var "P")] (.var "P")
    (lineBounds 4 0)

/-- A disjunction elimination whose branches are conditional proofs. -/
def casesOfConditionals : Attempt :=
  .start [.disj (.var "P") (.var "Q")] (.imp (.var "R") (.var "R")) (lineBounds 1 1)

/-- Both bounds that depend on the settings are reached. -/
theorem search_length_le_reached :
    crowdedCases.search.2.lines.length = 8 ∧
    crowdedCases.search.2.lines.length ≤ max 5 (max (5 + 3) (2 * min 1 5 + 4)) ∧
    casesOfConditionals.search.2.lines.length = 8 ∧
    casesOfConditionals.search.2.lines.length ≤ max 1 (max (2 + 3) (2 * min 2 2 + 4)) := by
  have hcrowded : crowdedCases.search.1.status = .finished := by decide +kernel
  have hcases : casesOfConditionals.search.1.status = .finished := by decide +kernel
  exact ⟨by decide +kernel, search_length_le _ _ _ hcrowded, by decide +kernel,
    search_length_le _ _ _ hcases⟩

end NaturalDeduction
