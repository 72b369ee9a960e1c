/-
The scope of blocks in the proofs that a search finds.

No rule asks whether a line that it cites is still in scope.  Blocks stay
apart all the same, because a block always ends the search that tried it: the
nodes that wait in a search have no closed blocks (`Bare`), so every line of a
node is in scope there.  What a search adds to a head is single steps, and at
the end perhaps one block, whose branches were found by searches from the same
node; that is a layout (`layout_search`), through every level of nesting.

The two branches of a disjunction elimination were found independently.  The
second is renumbered to stand behind the first, and its layout moves with it.
-/
import NaturalDeduction.Attempt.Basic
import NaturalDeduction.Proofs.Line.Move
import NaturalDeduction.Proofs.Search.Blocks

namespace NaturalDeduction

namespace Line

variable {lines base lead more : List Line} {l : Line} {opener : Rule}

/-! ### Lines without closed blocks -/

/-- No line closes a block. -/
def Bare (lines : List Line) : Prop :=
  ∀ l ∈ lines, l.rule.closesBlock = false

theorem Bare.append_singleton (h : Bare lines) (hl : l.rule.closesBlock = false) :
    Bare (lines ++ [l]) := by
  intro k hk
  rcases List.mem_append.mp hk with hk | hk
  · exact h k hk
  · obtain rfl := List.mem_singleton.mp hk
    exact hl

theorem Bare.settled (h : Bare lines) : Settled lines := by
  intro l hl hcloses
  rw [h l hl] at hcloses
  cases hcloses

/-- Where no block is closed, a kind of block that is not open does not
occur. -/
theorem Bare.rule_ne (h : Bare lines) (hopens : opener.opensBlock = true)
    (hclosed : hasOpenBlock lines opener = false) (hl : l ∈ lines) : l.rule ≠ opener := by
  intro hrule
  obtain ⟨i, hi⟩ := List.getElem?_of_mem hl
  have hopen : hasOpenBlock lines opener = true := by
    refine hasOpenBlock_iff.mpr ⟨hopens, i, l, hi, hrule, fun k hk => ?_⟩
    apply discharges_eq_false
    intro hopener
    have hbare := h k hk
    rw [Rule.closesBlock, hopener] at hbare
    cases hbare
  rw [hclosed] at hopen
  cases hopen

/-! ### Citations of numbered lines -/

/-- The numbers of lines of a sequence are places of it. -/
theorem WellNumbered.exists_places (h : WellNumbered lines) (hmore : ∀ l ∈ more, l ∈ lines) :
    ∃ places : List Nat, more.map number = places.map Nat.cast ∧ places.length = more.length ∧
      ∀ i ∈ places, i < lines.length := by
  refine ⟨more.map fun l => l.number.toNat, ?_, List.length_map _, fun i hi => ?_⟩
  · rw [List.map_map]
    refine List.map_congr_left fun l hl => ?_
    have := h.number_nonneg (hmore l hl)
    simp only [Function.comp_apply]
    omega
  · obtain ⟨l, hl, rfl⟩ := List.mem_map.mp hi
    have := h.number_lt (hmore l hl)
    have := h.number_nonneg (hmore l hl)
    omega

theorem WellNumbered.map_number (h : WellNumbered (base ++ lead)) :
    lead.map number = (List.range' base.length lead.length).map Nat.cast := by
  apply List.ext_getElem?
  intro i
  rw [List.getElem?_map, List.getElem?_map]
  rcases Nat.lt_or_ge i lead.length with hi | hi
  · have hplace : (base ++ lead)[base.length + i]? = some lead[i] := by
      rw [List.getElem?_append_right (Nat.le_add_right _ _), Nat.add_sub_cancel_left,
        List.getElem?_eq_getElem hi]
    rw [List.getElem?_eq_getElem hi, List.getElem?_range' hi, Option.map_some, Option.map_some,
      h _ _ hplace, Nat.one_mul]
  · rw [List.getElem?_eq_none hi, List.getElem?_eq_none (by simpa using hi)]
    rfl

/-! ### Blocks behind a sequence -/

/-- A line that cites some lines of `base` and all of `lead` ends a block that
begins behind `base`. -/
theorem ends_append {last : Line} {earlier : List Nat} (hnum : WellNumbered (base ++ lead))
    (hnone : ∀ l ∈ base, l.rule ≠ opener) (hopener : last.rule.opener = some opener)
    (hcites : last.cites = earlier.map Nat.cast ++ lead.map number) (hfew : earlier.length ≤ 1)
    (hearlier : ∀ i ∈ earlier, i < base.length) :
    Ends (base ++ lead ++ [last]) (Set.Iio base.length) base.length (base ++ lead).length opener
      earlier := by
  refine ⟨⟨last, by simp, hopener, ?_⟩, hfew, fun i hi => ?_⟩
  · rw [hcites, hnum.map_number, List.map_append, List.length_append, Nat.add_sub_cancel_left]
  · have hlt := hearlier i hi
    refine ⟨hlt, base[i], ?_, hnone _ (List.getElem_mem hlt)⟩
    rw [List.append_assoc, List.getElem?_append_left hlt, List.getElem?_eq_getElem hlt]

/-- What stands between the hypothesis of a branch and its end. -/
theorem exists_getElem?_between {base added : List Line} {h : Line} {j : Nat} (more : List Line)
    (hlt : base.length < j) (hj : j < (base ++ h :: added).length) :
    ∃ k ∈ added, (base ++ h :: added ++ more)[j]? = some k := by
  obtain ⟨i, rfl⟩ : ∃ i, j = base.length + (i + 1) := ⟨j - base.length - 1, by omega⟩
  have hi : i < added.length := by
    rw [List.length_append, List.length_cons] at hj
    omega
  refine ⟨added[i], List.getElem_mem hi, ?_⟩
  rw [List.getElem?_append_left hj, List.getElem?_append_right (Nat.le_add_right _ _),
    Nat.add_sub_cancel_left, List.getElem?_cons_succ, List.getElem?_eq_getElem hi]

/-- Lines of two branches that are not their hypotheses. -/
theorem exists_quiet_between {added₁ added₂ : List Line} {h₁ h₂ : Line} {j : Nat}
    (more : List Line) (hquiet₁ : Quiet opener added₁) (hquiet₂ : Quiet opener added₂)
    (hlo : base.length < j) (hhi : j < (base ++ h₁ :: added₁ ++ h₂ :: added₂).length)
    (hne : j ≠ (base ++ h₁ :: added₁).length) :
    ∃ k, (base ++ h₁ :: added₁ ++ h₂ :: added₂ ++ more)[j]? = some k ∧ k.rule ≠ opener := by
  rcases Nat.lt_or_gt_of_ne hne with hj | hj
  · obtain ⟨k, hk, hplace⟩ := exists_getElem?_between (h₂ :: added₂ ++ more) hlo hj
    rw [← List.append_assoc] at hplace
    exact ⟨k, hplace, (hquiet₁ k hk).1⟩
  · obtain ⟨k, hk, hplace⟩ := exists_getElem?_between more hj hhi
    exact ⟨k, hplace, (hquiet₂ k hk).1⟩

/-- Two branches on a disjunction, and a line behind them that cites it and all
of them. -/
theorem blockAt_disjElim {added₁ added₂ : List Line} {d h₁ h₂ last : Line} {i : Nat}
    (hnum : WellNumbered (base ++ h₁ :: added₁ ++ h₂ :: added₂))
    (hnone : ∀ l ∈ base, l.rule ≠ .disjHypothesis) (hi : base[i]? = some d)
    (hf : d.formula = .disj h₁.formula h₂.formula)
    (hrule₁ : h₁.rule = .disjHypothesis) (hcites₁ : h₁.cites = [↑i])
    (hrule₂ : h₂.rule = .disjHypothesis) (hcites₂ : h₂.cites = [↑i])
    (hquiet₁ : Quiet .disjHypothesis added₁) (hquiet₂ : Quiet .disjHypothesis added₂)
    (hrule : last.rule = .disjElim)
    (hcites : last.cites = ↑i :: (h₁ :: added₁ ++ h₂ :: added₂).map number) :
    BlockAt (base ++ h₁ :: added₁ ++ h₂ :: added₂ ++ [last]) (Set.Iio base.length) base.length
      (base ++ h₁ :: added₁ ++ h₂ :: added₂).length
      [(base.length, (base ++ h₁ :: added₁).length),
        ((base ++ h₁ :: added₁).length, (base ++ h₁ :: added₁ ++ h₂ :: added₂).length)] := by
  have hlt := (List.getElem?_eq_some_iff.mp hi).1
  have hends : Ends (base ++ h₁ :: added₁ ++ h₂ :: added₂ ++ [last]) (Set.Iio base.length)
      base.length (base ++ h₁ :: added₁ ++ h₂ :: added₂).length .disjHypothesis [i] := by
    rw [List.append_assoc base] at hnum ⊢
    apply ends_append hnum hnone
    · rw [hrule]
      rfl
    · rw [hcites]
      rfl
    · exact Nat.le_refl 1
    · simpa using hlt
  have hd : (base ++ h₁ :: added₁ ++ h₂ :: added₂ ++ [last])[i]? = some d := by
    rw [List.append_assoc, List.append_assoc, List.getElem?_append_left hlt]
    exact hi
  apply BlockAt.disjElim _ _ hd hf _ hrule₁ hcites₁ _ hrule₂ hcites₂ hends
  · intro j hlo hhi hne
    exact exists_quiet_between [last] hquiet₁ hquiet₂ hlo hhi hne
  · simp
  · simp
  · simp
  · rw [List.append_assoc, List.getElem?_append_right (Nat.le_refl _), Nat.sub_self]
    rfl

/-! ### Layouts behind a sequence -/

/-- A step behind steps that sees everything before it. -/
theorem Steps.append_singleton {s : Nat} (h : Steps lines (Set.Iio s) s lines.length)
    (hopens : l.rule.opensBlock = false) (hcloses : l.rule.closesBlock = false)
    (hcites : l.CitesIn (Set.Iio lines.length)) :
    Steps (lines ++ [l]) (Set.Iio s) s (lines ++ [l]).length := by
  refine (h.append (Nat.le_refl _) [l]).trans ⟨by simp, fun j hj hlt => ?_⟩
  obtain rfl : j = lines.length := by
    rw [List.length_append, List.length_singleton] at hlt
    omega
  refine ⟨l, by simp, hopens, hcloses, ?_⟩
  rwa [Set.Iio_union_Ico_eq_Iio h.le, Set.Ico_self, Set.union_empty]

/-- A layout that is a block. -/
theorem Layout.of_blockAt {b c : Nat} {branches : List (Nat × Nat)}
    (hblock : BlockAt lines (Set.Iio b) b c branches)
    (hinside : ∀ p q, (p, q) ∈ branches → Layout lines (Set.Iio b ∪ {p}) (p + 1) q) :
    Layout lines (Set.Iio b) b (c + 1) := by
  have hempty : Set.Iio b ∪ Set.Ico b b = Set.Iio b := by rw [Set.Ico_self, Set.union_empty]
  apply Layout.block ⟨Nat.le_refl b, fun j hj hlt => by omega⟩
  · rwa [hempty]
  · rwa [hempty]

end Line

namespace IsStep

variable {lines : List Line} {goal : Formula} {l : Line}

theorem citesIn (h : IsStep lines goal l) (hnum : Line.WellNumbered lines) :
    l.CitesIn (Set.Iio lines.length) := by
  obtain ⟨d, hd, hl⟩ := h
  obtain ⟨rests, -, rfl⟩ := Draft.toLine_eq_ok_iff.mp hl
  obtain ⟨cited, hcited, hcites⟩ := hd.cites_lines
  obtain ⟨places, hplaces, -, hlt⟩ := hnum.exists_places hcited
  exact Line.citesIn_iff.mpr ⟨places, hcites.trans hplaces, hlt⟩

end IsStep

namespace Node

open Line

variable {search : Node → Run} {n : Node}

/-! ### Blocks that a search finds -/

/-- What the search proves from a node is laid out in blocks behind the
node. -/
def LaidOut (n : Node) : Prop :=
  ∀ out, n.search.ending = .proved out →
    Layout out (Set.Iio n.lines.length) n.lines.length out.length

/-- A branch of a block as the nested search finds it: a hypothesis and lines
that open no block of its kind. -/
structure LaidOutBranch (n : Node) (hypothesis : Line) (added : List Line) : Prop where
  numbered : WellNumbered (n.lines ++ hypothesis :: added)
  quiet : Quiet hypothesis.rule added
  layout : Layout (n.lines ++ hypothesis :: added) (Set.Iio (n.lines.length + 1))
    (n.lines.length + 1) (n.lines ++ hypothesis :: added).length

theorem laidOutBranch_of_proved {hypothesis : Line} {goal : Formula} {out : List Line}
    (hnum : WellNumbered n.lines) (hbare : Bare n.lines)
    (hnumber : hypothesis.number = n.lines.length) (hopens : hypothesis.rule.opensBlock = true)
    (hnested : (n.assuming hypothesis goal).LaidOut)
    (hout : (n.assuming hypothesis goal).search.ending = .proved out) :
    ∃ added, out.drop n.lines.length = hypothesis :: added ∧
      n.LaidOutBranch hypothesis added := by
  have hnum' : WellNumbered (n.assuming hypothesis goal).lines :=
    assuming_wellNumbered hnum hnumber
  have hanswers := answers_search _ hnum'
  obtain ⟨added, rfl, hdrop⟩ := hanswers.eq_append hout
  refine ⟨added, hdrop, (hanswers.continues _ hout).2.1, ?_, ?_⟩
  · apply search_quiet _ hnum' (hasOpenBlock_append_hypothesis hbare.settled hopens)
    rw [hout, assuming, List.append_assoc, List.singleton_append]
  · have hlayout := hnested _ hout
    rwa [assuming, List.length_append, List.length_singleton] at hlayout

/-- The inside of a branch with lines put behind it. -/
theorem LaidOutBranch.layout_append {hypothesis : Line} {added : List Line}
    (h : n.LaidOutBranch hypothesis added) (more : List Line) :
    Layout (n.lines ++ hypothesis :: added ++ more) (Set.Iio n.lines.length ∪ {n.lines.length})
      (n.lines.length + 1) (n.lines ++ hypothesis :: added).length := by
  have hsees : Set.Iio n.lines.length ∪ {n.lines.length} = Set.Iio (n.lines.length + 1) := by
    ext i
    exact Nat.lt_succ_iff_lt_or_eq.symm
  rw [hsees]
  exact h.layout.append (fun _ hi => hi) (Nat.le_refl _) more

/-- The inside of a second branch behind a first one. -/
theorem LaidOutBranch.layout_splice {hypothesis : Line} {added : List Line}
    (h : n.LaidOutBranch hypothesis added) (first more : List Line) :
    Layout (n.lines ++ first
        ++ (hypothesis :: added).map (renumber first.length n.lines.length) ++ more)
      (Set.Iio n.lines.length ∪ {(n.lines ++ first).length}) ((n.lines ++ first).length + 1)
      (n.lines ++ first
        ++ (hypothesis :: added).map (renumber first.length n.lines.length)).length := by
  -- what stood before the branch stays, and the hypothesis moves
  have hsees : ∀ i ∈ Set.Iio (n.lines.length + 1),
      (if n.lines.length ≤ i then i + first.length else i)
        ∈ Set.Iio n.lines.length ∪ {(n.lines ++ first).length} := by
    intro i hi
    rw [Set.mem_Iio, Nat.lt_succ_iff_lt_or_eq] at hi
    rcases hi with hi | rfl
    · rw [if_neg (by omega)]
      exact .inl hi
    · rw [if_pos (Nat.le_refl _)]
      exact .inr List.length_append.symm
  have hlayout := h.layout.move (moved_splice n.lines first (hypothesis :: added) more) hsees
    (fun _ hi => hi) (Nat.le_succ _) (Nat.le_refl _)
  convert hlayout using 1
  · rw [List.length_append]
    omega
  · simp only [List.length_append, List.length_map]
    omega

theorem layout_conditionalBlock {a b : Formula} {added : List Line} {e : Extension}
    (hbare : Bare n.lines) (hclosed : hasOpenBlock n.lines .conditionalHypothesis = false)
    (hbranch : n.LaidOutBranch (n.conditionalHypothesis a) added)
    (he : n.conditionalBlock b (n.conditionalHypothesis a :: added) = .ok e) :
    Layout (n.lines ++ e.lines) (Set.Iio n.lines.length) n.lines.length
      (n.lines ++ e.lines).length := by
  obtain ⟨earlier, hearlier, rfl⟩ := conditionalBlock_eq_ok_iff.mp he
  have hmem : ∀ l ∈ earlier, l ∈ n.lines := by
    rcases hearlier with ⟨-, rfl⟩ | ⟨-, l, hl, rfl⟩
    · simp
    · simpa using List.mem_of_find?_eq_some hl
  have hfew : earlier.length ≤ 1 := by
    rcases hearlier with ⟨-, rfl⟩ | ⟨-, l, -, rfl⟩ <;> simp
  obtain ⟨places, hplaces, hlength, hlt⟩ := hbranch.numbered.of_append.exists_places hmem
  rw [Extension.lines, ← List.append_assoc, List.length_append, List.length_singleton]
  apply Layout.of_blockAt
  · refine .conditional (h := n.conditionalHypothesis a) (by simp) (by simp) rfl rfl
      (ends_append hbranch.numbered (fun l hl => hbare.rule_ne rfl hclosed hl) rfl ?_
        (hlength.trans_le hfew) hlt) ?_
    · rw [List.map_append, hplaces]
    · intro j hlo hhi
      obtain ⟨k, hk, hplace⟩ := exists_getElem?_between [_] hlo hhi
      exact ⟨k, hplace, (hbranch.quiet k hk).1⟩
  · intro p q hpq
    obtain ⟨rfl, rfl⟩ := Prod.mk.inj (List.mem_singleton.mp hpq)
    exact hbranch.layout_append _

theorem lines_disjElimBlock (n : Node) (l : Line) (first second : List Line) :
    n.lines ++ (n.disjElimBlock l first second).lines
      = n.lines ++ first ++ second.map (renumber first.length n.lines.length)
        ++ [(n.disjElimBlock l first second).last] := by
  rw [List.append_assoc n.lines, List.append_assoc]
  rfl

theorem layout_disjElimBlock {l : Line} {a b : Formula} {added₁ added₂ : List Line}
    (hbare : Bare n.lines) (hclosed : hasOpenBlock n.lines .disjHypothesis = false)
    (hl : l ∈ n.lines) (hf : l.formula = .disj a b)
    (hfirst : n.LaidOutBranch (n.disjHypothesis l a) added₁)
    (hsecond : n.LaidOutBranch (n.disjHypothesis l b) added₂) :
    Layout
      (n.lines ++ (n.disjElimBlock l (n.disjHypothesis l a :: added₁)
        (n.disjHypothesis l b :: added₂)).lines)
      (Set.Iio n.lines.length) n.lines.length
      (n.lines ++ (n.disjElimBlock l (n.disjHypothesis l a :: added₁)
        (n.disjHypothesis l b :: added₂)).lines).length := by
  obtain ⟨i, hi⟩ := List.getElem?_of_mem hl
  have hlt := (List.getElem?_eq_some_iff.mp hi).1
  have hnumber : l.number = i := hfirst.numbered.of_append i l hi
  have hcites₁ : (n.disjHypothesis l a).cites = [↑i] := by
    rw [disjHypothesis, ofHypothesis, hnumber]
  -- renumbering leaves the citation of the disjunction alone
  have hcites₂ : ((n.disjHypothesis l b).renumber
      (n.disjHypothesis l a :: added₁).length n.lines.length).cites = [↑i] := by
    have hbefore : ¬ n.lines.length ≤ i := by omega
    simp [renumber, disjHypothesis, ofHypothesis, hbefore, hnumber]
  rw [lines_disjElimBlock, List.length_append, List.length_singleton]
  apply Layout.of_blockAt (blockAt_disjElim (hfirst.numbered.append_renumber hsecond.numbered)
    (fun l hl => hbare.rule_ne rfl hclosed hl) hi hf rfl hcites₁ rfl hcites₂ hfirst.quiet
    (hsecond.quiet.renumber _ _) rfl (by rw [← hnumber]; rfl))
  intro p q hpq
  simp only [List.mem_cons, List.not_mem_nil, or_false, Prod.mk.injEq] at hpq
  rcases hpq with ⟨rfl, rfl⟩ | ⟨rfl, rfl⟩
  · rw [List.append_assoc (n.lines ++ _)]
    exact hfirst.layout_append _
  · exact hsecond.layout_splice _ _

/-! ### Candidates and runs -/

/-- What comes up at a node without closed blocks is laid out behind it. -/
theorem Offers.layout {e : Extension} (hnum : WellNumbered n.lines) (hbare : Bare n.lines)
    (hnested : ∀ (hypothesis : Line) (goal : Formula), hypothesis.number = n.lines.length →
      hypothesis.rule.opensBlock = true → (n.assuming hypothesis goal).LaidOut)
    (he : n.Offers Node.search e) :
    Layout (n.lines ++ e.lines) (Set.Iio n.lines.length) n.lines.length
      (n.lines ++ e.lines).length := by
  cases he with
  | single hl =>
    obtain ⟨hopens, hcloses⟩ := hl.opensBlock_closesBlock
    have hnone : Steps n.lines (Set.Iio n.lines.length) n.lines.length n.lines.length :=
      ⟨Nat.le_refl _, fun j hj hlt => by omega⟩
    exact .steps (hnone.append_singleton hopens hcloses (hl.citesIn hnum))
  | @disjElim l a b out₁ out₂ hl hf _ hclosed h₁ h₂ =>
    obtain ⟨added₁, hfirst, hbranch₁⟩ :=
      laidOutBranch_of_proved hnum hbare rfl rfl (hnested _ _ rfl rfl) h₁
    obtain ⟨added₂, hsecond, hbranch₂⟩ :=
      laidOutBranch_of_proved hnum hbare rfl rfl (hnested _ _ rfl rfl) h₂
    rw [hfirst, hsecond]
    exact layout_disjElimBlock hbare hclosed hl hf hbranch₁ hbranch₂
  | @conditional a b out _ hgoal _ hclosed hout he =>
    obtain ⟨added, hadded, hbranch⟩ :=
      laidOutBranch_of_proved hnum hbare rfl rfl (hnested _ _ rfl rfl) hout
    rw [hadded] at he
    exact layout_conditionalBlock hbare hclosed hbranch he

/-- The nodes of a search keep to single steps. -/
theorem keeps_steps (head : Node) :
    head.Keeps fun lines => WellNumbered lines ∧ Bare lines ∧
      Steps lines (Set.Iio head.lines.length) head.lines.length lines.length := by
  rintro lines l - ⟨hnum, hbare, hsteps⟩ hl - -
  obtain ⟨hopens, hcloses⟩ := hl.opensBlock_closesBlock
  exact ⟨wellNumbered_append_singleton.mpr ⟨hnum, hl.number_eq⟩, hbare.append_singleton hcloses,
    hsteps.append_singleton hopens hcloses (hl.citesIn hnum)⟩

/-- **What a search adds is laid out in blocks,** if nothing before it closes a
block. -/
theorem layout_search (head : Node) (hnum : WellNumbered head.lines) (hbare : Bare head.lines) :
    head.LaidOut := by
  induction head using search_induction with
  | step head ih =>
    intro out hout
    have hhead : Steps head.lines (Set.Iio head.lines.length) head.lines.length head.lines.length :=
      ⟨Nat.le_refl _, fun j hj hlt => by omega⟩
    rcases search_proved head.keeps_steps ⟨hnum, hbare, hhead⟩ hout with
      ⟨-, ⟨-, -, hsteps⟩, -⟩ | ⟨lines, found, e, hlines, ⟨hnum', hbare', hsteps⟩, hfound, he, rfl⟩
    · exact .steps hsteps
    · have hoffers := (offers_of_find?_eq_some hfound he).1
      have hlayout := hoffers.layout hnum' hbare' fun hypothesis goal hnumber hopens =>
        ih lines hypothesis goal hlines.length_le hlines.short
          (assuming_wellNumbered hnum' hnumber)
          (hbare'.append_singleton (by
            rw [Rule.closesBlock, Rule.opener_eq_none_of_opensBlock hopens]
            rfl))
      apply Layout.prepend (hsteps.append (Nat.le_refl _) e.lines)
      rwa [Set.Iio_union_Ico_eq_Iio hsteps.le]

end Node

/-! ### Attempts -/

namespace Line

theorem bare_ofAssumptions (fs : List Formula) : Bare (ofAssumptions fs) := by
  intro l hl
  obtain ⟨i, f, rfl⟩ := mem_ofAssumptions hl
  rfl

/-- Assumptions are steps that see nothing. -/
theorem steps_ofAssumptions (fs : List Formula) :
    Steps (ofAssumptions fs) ∅ 0 (ofAssumptions fs).length := by
  refine ⟨Nat.zero_le _, fun j _ hj => ?_⟩
  obtain ⟨i, f, hl⟩ := mem_ofAssumptions (List.getElem_mem hj)
  refine ⟨ofAssumption f i, ?_, rfl, rfl, ?_⟩
  · rw [List.getElem?_eq_getElem hj, hl]
  · simp [CitesIn, ofAssumption]

end Line

/-- **Proofs that an attempt finds are well scoped.**  If the search of a fresh
attempt finds a proof, the attempt ends with its lines; all of its blocks are
closed and nested, a line that closes a block cites it as a whole, and no line
cites into a block that it does not stand in. -/
theorem search_wellScoped (assumptions : List Formula) (goal : Formula) (settings : Settings)
    (out : List Line)
    (h : (Attempt.start assumptions goal settings).search.1.ending = .proved out) :
    (Attempt.start assumptions goal settings).search.2.lines = out ∧ Line.WellScoped out := by
  have hnum := Line.wellNumbered_ofAssumptions assumptions
  have hhead : (Attempt.start assumptions goal settings).node.search.ending = .proved out := h
  constructor
  · rw [Attempt.search, Attempt.update, hhead]
  · have hlayout := Node.layout_search _ hnum (Line.bare_ofAssumptions assumptions) out hhead
    obtain ⟨⟨added, rfl⟩, -, -⟩ := (Node.answers_search _ hnum).continues out hhead
    -- the assumptions are the first steps of the layout
    apply Line.Layout.wellScoped
    apply Line.Layout.prepend
      ((Line.steps_ofAssumptions assumptions).append (Nat.le_refl _) added)
    have hsees : Set.Ico 0 (Line.ofAssumptions assumptions).length
        = Set.Iio (Line.ofAssumptions assumptions).length := by
      ext i
      simp
    rw [Set.empty_union, hsees]
    exact hlayout

/-- A goal that takes a disjunction elimination with a conditional proof in
each branch. -/
def turnedUnderHypothesis : Attempt :=
  .start [.disj (.var "P") (.var "Q")] (.imp (.var "R") (.disj (.var "Q") (.var "P"))) default

theorem turnedUnderHypothesis_wellScoped :
    turnedUnderHypothesis.search.2.lines.map
        (Line.blockStart? turnedUnderHypothesis.search.2.lines)
      = [none, none, none, none, some 2, none, none, none, some 6, some 1] ∧
    Line.WellScoped turnedUnderHypothesis.search.2.lines := by
  have hfinished : turnedUnderHypothesis.search.1.status = .finished := by decide +kernel
  obtain ⟨out, hout⟩ := Run.exists_proved hfinished
  obtain ⟨hlines, hscoped⟩ := search_wellScoped _ _ _ out hout
  refine ⟨by decide +kernel, ?_⟩
  rw [turnedUnderHypothesis, hlines]
  exact hscoped

end NaturalDeduction
