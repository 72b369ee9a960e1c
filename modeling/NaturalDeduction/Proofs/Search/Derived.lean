/-
A search adds no assumptions.

Whatever a search puts behind the lines of its head is drawn from them or is the
hypothesis of a block, at every level of nesting (`search_derived`).  So the
assumptions of what it proves are those that it started from
(`assumptions_of_proved`).
-/
import NaturalDeduction.Proofs.Search.Numbering

namespace NaturalDeduction

namespace Line

variable {lines more : List Line}

/-- None of the lines is an assumption. -/
def Derived (lines : List Line) : Prop :=
  ∀ l ∈ lines, l.rule ≠ .assumption

theorem Derived.append (h : Derived lines) (hmore : Derived more) : Derived (lines ++ more) := by
  intro l hl
  rcases List.mem_append.mp hl with hl | hl
  · exact h l hl
  · exact hmore l hl

/-- A line that opens or closes a block is derived. -/
theorem derived_singleton {l : Line} (h : l.rule.opensBlock = true ∨ l.rule.closesBlock = true) :
    Derived [l] := by
  intro k hk hrule
  obtain rfl := List.mem_singleton.mp hk
  rw [hrule] at h
  rcases h with h | h
  · cases h
  · cases h

theorem Derived.renumber (h : Derived lines) (offset threshold : Int) :
    Derived (lines.map (Line.renumber offset threshold)) := by
  intro l hl
  obtain ⟨k, hk, rfl⟩ := List.mem_map.mp hl
  exact h k hk

end Line

open Line

theorem IsStep.derived {lines : List Line} {goal : Formula} {l : Line} (h : IsStep lines goal l) :
    Derived [l] := by
  intro k hk hrule
  obtain rfl := List.mem_singleton.mp hk
  have hmem := h.rule_mem
  rw [hrule] at hmem
  simp at hmem

namespace Node

variable {search : Node → Run} {n : Node}

/-- What the search adds to a node is derived. -/
def DerivedAt (search : Node → Run) (n : Node) : Prop :=
  ∀ added, (search n).ending = .proved (n.lines ++ added) → Derived added

/-- The lines of a branch are its hypothesis and what the nested search
adds. -/
theorem derived_branch {hypothesis : Line} {goal : Formula} {out : List Line}
    (hanswer : Answers search (n.assuming hypothesis goal))
    (hnested : DerivedAt search (n.assuming hypothesis goal))
    (hopens : hypothesis.rule.opensBlock = true)
    (hout : (search (n.assuming hypothesis goal)).ending = .proved out) :
    Derived (out.drop n.lines.length) := by
  obtain ⟨added, rfl, hdrop⟩ := hanswer.eq_append hout
  rw [hdrop, ← List.singleton_append]
  apply (derived_singleton (.inl hopens)).append
  apply hnested
  rw [hout, assuming, List.append_assoc, List.singleton_append]

theorem Offers.derived {e : Extension} (hanswer : NestedAnswer search n)
    (hnested : ∀ (hypothesis : Line) (goal : Formula), hypothesis.number = n.lines.length →
      DerivedAt search (n.assuming hypothesis goal))
    (he : n.Offers search e) : Derived e.lines := by
  cases he with
  | single hl => exact hl.derived
  | @disjElim l a b out₁ out₂ hl hf _ _ h₁ h₂ =>
    -- the second branch was renumbered behind the first
    have hfirst := derived_branch (hanswer.disj l a) (hnested _ _ rfl) rfl h₁
    have hsecond := derived_branch (hanswer.disj l b) (hnested _ _ rfl) rfl h₂
    exact (hfirst.append (hsecond.renumber _ _)).append (derived_singleton (.inr rfl))
  | @conditional a b out _ hgoal _ _ hout he =>
    have hlead := derived_branch (hanswer.conditional a b) (hnested _ _ rfl) rfl hout
    obtain ⟨earlier, -, rfl⟩ := conditionalBlock_eq_ok_iff.mp he
    exact hlead.append (derived_singleton (.inr rfl))

/-- The lines that a search adds to the nodes of its queue are derived. -/
theorem keeps_derived (head : Node) :
    head.Keeps fun lines => Derived (lines.drop head.lines.length) := by
  intro lines l hlines hderived hl _ _
  rw [List.drop_append_of_le_length hlines.length_le]
  exact hderived.append hl.derived

/-- **A search adds no assumptions.** -/
theorem search_derived (head : Node) (hnum : WellNumbered head.lines) :
    DerivedAt Node.search head := by
  induction head using search_induction with
  | step head ih =>
    intro added hout
    have hkeeps := head.keeps_wellNumbered.and head.keeps_derived
    have hhead : Derived (head.lines.drop head.lines.length) := by simp [Derived]
    -- a proof is a node of the queue, or such a node and a candidate that ends it
    rcases search_added hkeeps ⟨hnum, hhead⟩ hout with
      ⟨-, hderived⟩ | ⟨more, e, rfl, hlines, ⟨hnum', hderived⟩, hoffers⟩
    · simpa using hderived
    · rw [List.drop_left] at hderived
      apply hderived.append
      apply hoffers.derived (nestedAnswer_search hnum')
      intro hypothesis goal hnumber
      exact ih (head.lines ++ more) hypothesis goal hlines.length_le hlines.short
        (assuming_wellNumbered hnum' hnumber)

/-- A proof has the assumptions that the search for it started from. -/
theorem assumptions_of_proved {out : List Line} (hnum : WellNumbered n.lines)
    (h : n.search.ending = .proved out) :
    assumptions { n with lines := out } = n.assumptions := by
  obtain ⟨⟨added, rfl⟩, -, -⟩ := (answers_search n hnum).continues out h
  have hnone : added.filter (fun l => decide (l.rule = .assumption)) = [] := by
    rw [List.filter_eq_nil_iff]
    intro l hl
    simpa using search_derived n hnum added h l hl
  rw [assumptions, assumptions, List.filter_append, hnone, List.append_nil]

end Node

end NaturalDeduction
