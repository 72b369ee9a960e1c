/-
Searches on lines that are numbered by their places.

Such lines can be looked up by their numbers, so no search from them breaks
off; and a search that finds a proof ends with lines that are numbered by
their places, that begin with the lines of the head, and that state the goal.
Both facts make up `Node.Answers`, and they hold together at every level of
nesting (`answers_search`): a conditional proof needs a line with its
consequent, and the nested search has stated it.
-/
import NaturalDeduction.Proofs.Search.Nodes

namespace NaturalDeduction

/-! ### Renumbered lines -/

namespace Line

variable {base first second : List Line}

theorem renumber_number (offset threshold : Int) (l : Line) :
    (l.renumber offset threshold).number = l.number + offset := rfl

theorem renumber_formula (offset threshold : Int) (l : Line) :
    (l.renumber offset threshold).formula = l.formula := rfl

/-- Of two continuations of the same lines, the second can be put behind the
first and renumbered. -/
theorem WellNumbered.append_renumber (h₁ : WellNumbered (base ++ first))
    (h₂ : WellNumbered (base ++ second)) :
    WellNumbered (base ++ first ++ second.map (renumber first.length base.length)) := by
  intro i l hi
  rcases Nat.lt_or_ge i (base ++ first).length with hlt | hge
  · rw [List.getElem?_append_left hlt] at hi
    exact h₁ i l hi
  · rw [List.getElem?_append_right hge, List.getElem?_map, Option.map_eq_some_iff] at hi
    obtain ⟨k, hk, rfl⟩ := hi
    rw [List.length_append] at hge hk
    have hplace : (base ++ second)[base.length + (i - (base.length + first.length))]? = some k := by
      rw [List.getElem?_append_right (by omega), Nat.add_sub_cancel_left]
      exact hk
    rw [renumber_number, h₂ _ _ hplace]
    omega

end Line

namespace Node

variable {search : Node → Run} {n : Node}

/-- The search from a node does not break off, and what it proves continues
the node. -/
structure Answers (search : Node → Run) (n : Node) : Prop where
  unbroken : ∀ fault, (search n).ending ≠ .broken fault
  continues : ∀ out, (search n).ending = .proved out →
    n.lines <+: out ∧ Line.WellNumbered out ∧ n.goal ∈ formulas out

/-- The nested searches that can be started at a node answer. -/
def NestedAnswer (search : Node → Run) (n : Node) : Prop :=
  ∀ (hypothesis : Line) (goal : Formula), hypothesis.number = n.lines.length →
    Answers search (n.assuming hypothesis goal)

theorem NestedAnswer.disj (h : NestedAnswer search n) (l : Line) (side : Formula) :
    Answers search (n.assuming (n.disjHypothesis l side) n.goal) :=
  h _ _ rfl

theorem NestedAnswer.conditional (h : NestedAnswer search n) (a b : Formula) :
    Answers search (n.assuming (n.conditionalHypothesis a) b) :=
  h _ _ rfl

/-- What a nested search proves is the lines of the node, the hypothesis and
what was added. -/
theorem Answers.eq_append {hypothesis : Line} {goal : Formula} {out : List Line}
    (h : Answers search (n.assuming hypothesis goal))
    (hout : (search (n.assuming hypothesis goal)).ending = .proved out) :
    ∃ added, out = n.lines ++ hypothesis :: added ∧
      out.drop n.lines.length = hypothesis :: added := by
  obtain ⟨⟨added, rfl⟩, -, -⟩ := h.continues out hout
  exact ⟨added, by simp [assuming], by simp [assuming]⟩

/-- The goal of a nested search stands on a line of the node or behind it. -/
theorem Answers.goal_mem {hypothesis : Line} {goal : Formula} {out : List Line}
    (h : Answers search (n.assuming hypothesis goal))
    (hout : (search (n.assuming hypothesis goal)).ending = .proved out) :
    goal ∈ formulas (n.lines ++ out.drop n.lines.length) := by
  obtain ⟨added, hadded, hdrop⟩ := h.eq_append hout
  rw [hdrop, ← hadded]
  exact (h.continues out hout).2.2

/-! ### Candidates can be worked out -/

theorem exists_branch {hypothesis : Line} {goal : Formula}
    (h : Answers search (n.assuming hypothesis goal)) :
    ∃ r, n.branch search hypothesis goal = .ok r := by
  rw [branch]
  rcases hend : (search (n.assuming hypothesis goal)).ending with out | why | fault
  · exact ⟨_, rfl⟩
  · exact ⟨_, rfl⟩
  · exact absurd hend (h.unbroken fault)

theorem exists_disjElimOn (h : NestedAnswer search n) (l : Line) :
    ∃ found, n.disjElimOn search l = .ok found := by
  rw [disjElimOn]
  split
  · next a b hf =>
    obtain ⟨⟨first?, trace₁⟩, hfirst⟩ := exists_branch (h.disj l a)
    obtain ⟨⟨second?, trace₂⟩, hsecond⟩ := exists_branch (h.disj l b)
    rcases first? with - | first
    · exact ⟨_, bind_eq_ok_iff.mpr ⟨_, hfirst, rfl⟩⟩
    · rcases second? with - | second
      · exact ⟨_, bind_eq_ok_iff.mpr ⟨_, hfirst, bind_eq_ok_iff.mpr ⟨_, hsecond, rfl⟩⟩⟩
      · exact ⟨_, bind_eq_ok_iff.mpr ⟨_, hfirst, bind_eq_ok_iff.mpr ⟨_, hsecond, rfl⟩⟩⟩
  · exact ⟨_, rfl⟩

theorem exists_disjElimsOn (h : NestedAnswer search n) (lines : List Line) :
    ∃ found, n.disjElimsOn search lines = .ok found := by
  induction lines with
  | nil => exact ⟨_, rfl⟩
  | cons l rest ih =>
    obtain ⟨found₁, h₁⟩ := exists_disjElimOn h l
    obtain ⟨found₂, h₂⟩ := ih
    exact ⟨found₁.append found₂,
      bind_eq_ok_iff.mpr ⟨_, h₁, bind_eq_ok_iff.mpr ⟨_, h₂, rfl⟩⟩⟩

theorem exists_disjElims (h : NestedAnswer search n) :
    ∃ found, n.disjElims search = .ok found := by
  rw [disjElims]
  split
  · exact ⟨_, rfl⟩
  · exact exists_disjElimsOn h n.lines

/-- A consequent that a nested search has proved, but not under the hypothesis,
stands before it. -/
theorem exists_earlier {consequent : Formula} {lead : List Line}
    (h : consequent ∈ formulas (n.lines ++ lead)) (hlead : consequent ∉ formulas lead) :
    ∃ l, n.lines.reverse.find? (fun l => decide (l.formula = consequent)) = some l := by
  rw [formulas_append] at h
  obtain ⟨l, hl, hf⟩ := mem_formulas.mp ((List.mem_append.mp h).resolve_right hlead)
  rw [← Option.isSome_iff_exists, List.find?_isSome]
  exact ⟨l, by simpa using hl, by simpa using hf⟩

theorem exists_conditionalBlock {consequent : Formula} {lead : List Line}
    (h : consequent ∈ formulas (n.lines ++ lead)) :
    ∃ e, n.conditionalBlock consequent lead = .ok e := by
  by_cases hlead : consequent ∈ formulas lead
  · exact ⟨_, conditionalBlock_eq_ok_iff.mpr ⟨[], .inl ⟨hlead, rfl⟩, rfl⟩⟩
  · obtain ⟨l, hl⟩ := exists_earlier h hlead
    exact ⟨_, conditionalBlock_eq_ok_iff.mpr ⟨[l], .inr ⟨hlead, l, hl, rfl⟩, rfl⟩⟩

theorem exists_conditionalProofs (h : NestedAnswer search n) :
    ∃ found, n.conditionalProofs search = .ok found := by
  rw [conditionalProofs]
  split
  · next a b hgoal =>
    split
    · exact ⟨_, rfl⟩
    · obtain ⟨⟨lead?, trace⟩, hlead⟩ := exists_branch (h.conditional a b)
      rcases lead? with - | lead
      · exact ⟨_, bind_eq_ok_iff.mpr ⟨_, hlead, rfl⟩⟩
      · obtain ⟨out, hout, rfl, -⟩ := branch_eq_ok_some_iff.mp hlead
        obtain ⟨e, he⟩ := exists_conditionalBlock ((h.conditional a b).goal_mem hout)
        exact ⟨_, bind_eq_ok_iff.mpr ⟨_, hlead, bind_eq_ok_iff.mpr ⟨e, he, rfl⟩⟩⟩
  · exact ⟨_, rfl⟩

theorem exists_candidates (hnum : Line.WellNumbered n.lines) (h : NestedAnswer search n) :
    ∃ found, n.candidates search = .ok found := by
  obtain ⟨singles, hsingles⟩ := exists_singleSteps hnum
  obtain ⟨elims, helims⟩ := exists_disjElims h
  obtain ⟨proofs, hproofs⟩ := exists_conditionalProofs h
  exact ⟨_, candidates_eq_ok_iff.mpr ⟨singles, elims, proofs, hsingles, helims, hproofs, rfl⟩⟩

/-! ### Extensions continue the numbering -/

theorem Offers.wellNumbered {e : Extension} (hnum : Line.WellNumbered n.lines)
    (h : NestedAnswer search n) (he : n.Offers search e) :
    Line.WellNumbered (n.lines ++ e.lines) := by
  cases he with
  | single hl => exact Line.wellNumbered_append_singleton.mpr ⟨hnum, hl.number_eq⟩
  | @disjElim l a b out₁ out₂ hl hf _ _ h₁ h₂ =>
    obtain ⟨added₁, heq₁, hdrop₁⟩ := (h.disj l a).eq_append h₁
    obtain ⟨added₂, heq₂, hdrop₂⟩ := (h.disj l b).eq_append h₂
    have hnum₁ := ((h.disj l a).continues out₁ h₁).2.1
    have hnum₂ := ((h.disj l b).continues out₂ h₂).2.1
    rw [heq₁, ← hdrop₁] at hnum₁
    rw [heq₂, ← hdrop₂] at hnum₂
    rw [Extension.lines, ← List.append_assoc, Line.wellNumbered_append_singleton]
    refine ⟨?_, ?_⟩
    · rw [disjElimBlock, ← List.append_assoc]
      exact hnum₁.append_renumber hnum₂
    · simp [disjElimBlock]
  | @conditional a b out _ hgoal _ _ hout he =>
    obtain ⟨added, heq, hdrop⟩ := (h.conditional a b).eq_append hout
    have hnum' := ((h.conditional a b).continues out hout).2.1
    rw [heq, ← hdrop] at hnum'
    obtain ⟨earlier, -, rfl⟩ := conditionalBlock_eq_ok_iff.mp he
    rw [Extension.lines, ← List.append_assoc, Line.wellNumbered_append_singleton]
    exact ⟨hnum', by simp⟩

/-! ### Runs -/

theorem keeps_wellNumbered (head : Node) : head.Keeps Line.WellNumbered :=
  fun _ _ _ hnum hl _ _ => Line.wellNumbered_append_singleton.mpr ⟨hnum, hl.number_eq⟩

theorem assuming_wellNumbered {hypothesis : Line} {goal : Formula}
    (hnum : Line.WellNumbered n.lines) (hhyp : hypothesis.number = n.lines.length) :
    Line.WellNumbered (n.assuming hypothesis goal).lines :=
  Line.wellNumbered_append_singleton.mpr ⟨hnum, hhyp⟩

/-- **From lines numbered by their places every search answers.** -/
theorem answers_search (head : Node) (hnum : Line.WellNumbered head.lines) :
    Answers Node.search head := by
  induction head using search_induction with
  | step head ih =>
    -- the searches nested at a node of the run have less room
    have hnested : ∀ lines, head.Expandable lines → Line.WellNumbered lines →
        NestedAnswer Node.search ⟨lines, head.goal, head.settings⟩ :=
      fun lines hlines hnum' hypothesis goal hhyp =>
        ih lines hypothesis goal hlines.length_le hlines.short
          (assuming_wellNumbered (n := ⟨lines, head.goal, head.settings⟩) hnum' hhyp)
    constructor
    · intro fault hfault
      obtain ⟨lines, hlines, hnum', herror⟩ := search_broken head.keeps_wellNumbered hnum hfault
      obtain ⟨found, hfound⟩ := exists_candidates (n := ⟨lines, head.goal, head.settings⟩) hnum'
        (hnested lines hlines hnum')
      rw [herror] at hfound
      cases hfound
    · intro out hout
      rcases search_proved head.keeps_wellNumbered hnum hout with
        ⟨hext, hnum', hgoal⟩ | ⟨lines, found, e, hlines, hnum', hfound, he, rfl⟩
      · exact ⟨hext, hnum', hgoal⟩
      · obtain ⟨hoffers, hlast⟩ := offers_of_find?_eq_some hfound he
        refine ⟨hlines.extends_head.trans (List.prefix_append _ _),
          hoffers.wellNumbered hnum' (hnested lines hlines hnum'), ?_⟩
        rw [formulas_append, Extension.lines, formulas_append]
        simp [formulas, hlast]

theorem nestedAnswer_search {n : Node} (hnum : Line.WellNumbered n.lines) :
    NestedAnswer Node.search n :=
  fun _ _ hhyp => answers_search _ (assuming_wellNumbered hnum hhyp)

end Node

end NaturalDeduction
