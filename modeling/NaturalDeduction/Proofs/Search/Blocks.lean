/-
Open blocks in a search.

Lines that neither open nor close a block of a kind (`Quiet opener lines`) do
not change whether such a block is open (`hasOpenBlock_append`).  The single
steps of a search are quiet, so every node of a search agrees with the head on
which blocks are open; and a hypothesis that is put behind a node opens a block
(`hasOpenBlock_append_hypothesis`), since the lines before it cite nothing so
far ahead.

Inside an open block no block of the same kind is tried.  So what a search
adds to a head with an open block is quiet (`search_quiet`), at every level of
nesting.
-/
import NaturalDeduction.Proofs.Search.Numbering

namespace NaturalDeduction

namespace Line

/-! ### Which blocks are open -/

variable {lines more : List Line} {opener : Rule}

/-- None of the lines opens a block of the kind, or closes one. -/
def Quiet (opener : Rule) (lines : List Line) : Prop :=
  ∀ l ∈ lines, l.rule ≠ opener ∧ l.rule.opener ≠ some opener

theorem Quiet.append (h : Quiet opener lines) (hmore : Quiet opener more) :
    Quiet opener (lines ++ more) := by
  intro l hl
  rcases List.mem_append.mp hl with hl | hl
  · exact h l hl
  · exact hmore l hl

theorem Quiet.renumber (h : Quiet opener lines) (offset threshold : Int) :
    Quiet opener (lines.map (Line.renumber offset threshold)) := by
  intro l hl
  obtain ⟨k, hk, rfl⟩ := List.mem_map.mp hl
  exact h k hk

/-- Lines that close a block cite no line that is still to come. -/
def Settled (lines : List Line) : Prop :=
  ∀ l ∈ lines, l.rule.closesBlock = true → ∀ n ∈ l.cites, n < lines.length

theorem hasOpenBlock_iff :
    hasOpenBlock lines opener = true ↔
      opener.opensBlock = true ∧ ∃ (i : Nat) (h : Line), lines[i]? = some h ∧ h.rule = opener ∧
        ∀ l ∈ lines, l.discharges opener i = false := by
  rw [hasOpenBlock, List.any_eq_true]
  constructor
  · rintro ⟨⟨h, i⟩, hmem, hrule⟩
    obtain ⟨hplace, hopen⟩ := List.mem_filter.mp hmem
    rw [List.mk_mem_zipIdx_iff_getElem?] at hplace
    obtain rfl : h.rule = opener := by simpa using hrule
    simp only [Bool.and_eq_true, Bool.not_eq_true', List.any_eq_false, Bool.not_eq_true] at hopen
    exact ⟨hopen.1, i, h, hplace, rfl, hopen.2⟩
  · rintro ⟨hopens, i, h, hplace, rfl, hopen⟩
    refine ⟨(h, i), List.mem_filter.mpr ⟨List.mk_mem_zipIdx_iff_getElem?.mpr hplace, ?_⟩, by simp⟩
    simpa [hopens] using hopen

theorem discharges_eq_false {l : Line} (h : l.rule.opener ≠ some opener) (index : Nat) :
    l.discharges opener index = false := by
  simp [discharges, h]

/-- Quiet lines leave a block open if it was, and closed if it was. -/
theorem hasOpenBlock_append (hquiet : Quiet opener more) :
    hasOpenBlock (lines ++ more) opener = hasOpenBlock lines opener := by
  rw [Bool.eq_iff_iff, hasOpenBlock_iff, hasOpenBlock_iff]
  refine and_congr_right fun _ => ⟨?_, ?_⟩
  · rintro ⟨i, h, hplace, hrule, hopen⟩
    refine ⟨i, h, ?_, hrule, fun l hl => hopen l (List.mem_append_left more hl)⟩
    -- the hypothesis is not among the quiet lines
    rcases Nat.lt_or_ge i lines.length with hlt | hge
    · rwa [List.getElem?_append_left hlt] at hplace
    · rw [List.getElem?_append_right hge] at hplace
      exact absurd hrule (hquiet h (List.mem_of_getElem? hplace)).1
  · rintro ⟨i, h, hplace, hrule, hopen⟩
    refine ⟨i, h, ?_, hrule, fun l hl => ?_⟩
    · rw [List.getElem?_append_left (List.getElem?_eq_some_iff.mp hplace).1]
      exact hplace
    · rcases List.mem_append.mp hl with hl | hl
      · exact hopen l hl
      · exact discharges_eq_false (hquiet l hl).2 i

/-- A hypothesis at the end opens a block. -/
theorem hasOpenBlock_append_hypothesis {h : Line} (hsettled : Settled lines)
    (hopens : h.rule.opensBlock = true) : hasOpenBlock (lines ++ [h]) h.rule = true := by
  refine hasOpenBlock_iff.mpr ⟨hopens, lines.length, h, by simp, rfl, fun l hl => ?_⟩
  rcases List.mem_append.mp hl with hl | hl
  · rw [discharges, Bool.and_eq_false_iff]
    by_cases hcloses : l.rule.closesBlock
    · refine .inr (Bool.eq_false_iff.mpr fun hcites => ?_)
      have := hsettled l hl hcloses lines.length (List.contains_iff_mem.mp hcites)
      omega
    · left
      rw [Rule.closesBlock, Option.isSome_iff_ne_none, not_not] at hcloses
      simp [hcloses]
  · obtain rfl := List.mem_singleton.mp hl
    apply discharges_eq_false
    simp [Rule.opener_eq_none_of_opensBlock hopens]

theorem Settled.append_singleton {l : Line} (h : Settled lines) (hl : l.rule.closesBlock = false) :
    Settled (lines ++ [l]) := by
  intro k hk hcloses n hn
  rw [List.length_append, List.length_singleton]
  rcases List.mem_append.mp hk with hk | hk
  · have := h k hk hcloses n hn
    omega
  · obtain rfl := List.mem_singleton.mp hk
    rw [hl] at hcloses
    cases hcloses

end Line

namespace IsStep

variable {lines : List Line} {goal : Formula} {l : Line} {opener : Rule}

/-- A step that adds one line neither opens nor closes a block. -/
theorem opensBlock_closesBlock (h : IsStep lines goal l) :
    l.rule.opensBlock = false ∧ l.rule.closesBlock = false := by
  have hrule := h.rule_mem
  simp only [List.mem_cons, List.not_mem_nil, or_false] at hrule
  rcases hrule with hrule | hrule | hrule | hrule | hrule | hrule <;> rw [hrule] <;> decide

theorem quiet (h : IsStep lines goal l) (hopens : opener.opensBlock = true) :
    Line.Quiet opener [l] := by
  intro k hk
  obtain rfl := List.mem_singleton.mp hk
  obtain ⟨hopen, hclose⟩ := h.opensBlock_closesBlock
  constructor
  · rintro rfl
    rw [hopens] at hopen
    cases hopen
  · intro hopener
    rw [Rule.closesBlock, hopener] at hclose
    cases hclose

end IsStep

namespace Node

/-! ### What a search adds inside a block -/

variable {search : Node → Run} {n head : Node} {opener : Rule}

/-- Under a hypothesis of one kind the blocks of the other kind are as
before. -/
theorem quiet_hypothesis {h : Line} (hopens : h.rule.opensBlock = true) (hne : h.rule ≠ opener) :
    Line.Quiet opener [h] := by
  intro k hk
  obtain rfl := List.mem_singleton.mp hk
  exact ⟨hne, by simp [Rule.opener_eq_none_of_opensBlock hopens]⟩

theorem quiet_discharge {l : Line} (hopens : opener.opensBlock = true)
    (hne : l.rule.opener ≠ some opener) (hcloses : l.rule.closesBlock = true) :
    Line.Quiet opener [l] := by
  intro k hk
  obtain rfl := List.mem_singleton.mp hk
  refine ⟨?_, hne⟩
  rintro rfl
  rw [Rule.closesBlock, Rule.opener_eq_none_of_opensBlock hopens] at hcloses
  cases hcloses

/-- What the search adds to a node inside an open block of the kind is
quiet. -/
def QuietAt (search : Node → Run) (opener : Rule) (n : Node) : Prop :=
  Line.hasOpenBlock n.lines opener = true → ∀ added,
    (search n).ending = .proved (n.lines ++ added) → Line.Quiet opener added

theorem Offers.quiet {e : Extension} (hanswer : NestedAnswer search n)
    (hopen : Line.hasOpenBlock n.lines opener = true)
    (hnested : ∀ (hypothesis : Line) (goal : Formula), hypothesis.number = n.lines.length →
      QuietAt search opener (n.assuming hypothesis goal))
    (he : n.Offers search e) : Line.Quiet opener e.lines := by
  have hopens : opener.opensBlock = true := (Line.hasOpenBlock_iff.mp hopen).1
  -- a nested search under a hypothesis of the other kind
  have hbranch : ∀ (h : Line) (goal : Formula) (out : List Line), h.number = n.lines.length →
      h.rule.opensBlock = true → h.rule ≠ opener →
      (search (n.assuming h goal)).ending = .proved out →
      Line.Quiet opener (out.drop n.lines.length) := by
    intro h goal out hnumber hrule hne hout
    obtain ⟨added, rfl, hdrop⟩ := (hanswer h goal hnumber).eq_append hout
    have hquiet := quiet_hypothesis hrule hne
    rw [hdrop, ← List.singleton_append]
    refine hquiet.append (hnested h goal hnumber ?_ added ?_)
    · rw [assuming, Line.hasOpenBlock_append hquiet]
      exact hopen
    · rw [hout, assuming, List.append_assoc, List.singleton_append]
  cases he with
  | single hl => exact hl.quiet hopens
  | @disjElim l a b out₁ out₂ hl hf _ hclosed h₁ h₂ =>
    -- inside a block of its own kind the rule is not tried
    have hne : Rule.disjHypothesis ≠ opener := by
      rintro rfl
      rw [hopen] at hclosed
      cases hclosed
    have hfirst := hbranch (n.disjHypothesis l a) _ _ rfl rfl hne h₁
    have hsecond := hbranch (n.disjHypothesis l b) _ _ rfl rfl hne h₂
    rw [Extension.lines, disjElimBlock]
    refine (hfirst.append (hsecond.renumber _ _)).append ?_
    exact quiet_discharge hopens (fun h => hne (Option.some.inj h)) rfl
  | @conditional a b out _ hgoal _ hclosed hout he =>
    have hne : Rule.conditionalHypothesis ≠ opener := by
      rintro rfl
      rw [hopen] at hclosed
      cases hclosed
    have hlead := hbranch (n.conditionalHypothesis a) _ _ rfl rfl hne hout
    obtain ⟨earlier, -, rfl⟩ := conditionalBlock_eq_ok_iff.mp he
    refine hlead.append ?_
    exact quiet_discharge hopens (fun h => hne (Option.some.inj h)) rfl

/-- The lines that a search adds to the nodes of its queue are quiet. -/
theorem keeps_quiet (head : Node) (hopens : opener.opensBlock = true) :
    head.Keeps fun lines => Line.Quiet opener (lines.drop head.lines.length) := by
  intro lines l hlines hquiet hl _ _
  rw [List.drop_append_of_le_length hlines.length_le]
  exact hquiet.append (hl.quiet hopens)

/-- **Inside an open block a search opens and closes no block of its kind.** -/
theorem search_quiet (head : Node) (hnum : Line.WellNumbered head.lines) :
    QuietAt Node.search opener head := by
  induction head using search_induction with
  | step head ih =>
    intro hopen added hout
    have hopens : opener.opensBlock = true := (Line.hasOpenBlock_iff.mp hopen).1
    have hkeeps := head.keeps_wellNumbered.and (head.keeps_quiet hopens)
    have hhead : Line.Quiet opener (head.lines.drop head.lines.length) := by simp [Line.Quiet]
    rcases search_added hkeeps ⟨hnum, hhead⟩ hout with
      ⟨-, hquiet⟩ | ⟨more, e, rfl, hlines, ⟨hnum', hquiet⟩, hoffers⟩
    · simpa using hquiet
    · rw [List.drop_left] at hquiet
      refine hquiet.append (hoffers.quiet (nestedAnswer_search hnum') ?_ ?_)
      · rw [Line.hasOpenBlock_append hquiet]
        exact hopen
      · intro hypothesis goal hnumber
        exact ih (head.lines ++ more) hypothesis goal hlines.length_le hlines.short
          (assuming_wellNumbered hnum' hnumber)

end Node

end NaturalDeduction
