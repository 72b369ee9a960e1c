/-
What the search finds passes the check.

The check knows nothing of the search: it looks citations up and judges each
step anew.  Still every candidate of a sound node extends it to a sound
sequence, and what a search proves from a sound head is accepted.

* A single step cites the numbers of the lines it was drawn from, so the check
  looks up these very lines (`IsStep.justified`).
* The lines of a block were found by a nested search and are sound by
  induction.  The second branch of a disjunction elimination is spliced behind
  the first (`Sound.append_renumber`).
* The check counts the hypotheses drawn from the disjunction and wants two.
  There are no more, since a search inside an open block of this kind opens
  none (`search_quiet`).

Main result: `search_checked`.
-/
import NaturalDeduction.Proofs.Check.Splice
import NaturalDeduction.Proofs.Search.Blocks

namespace NaturalDeduction

variable {lines cited : List Line} {l : Line}

/-! ### Lines cited by their numbers -/

theorem backward_numbers (hnum : Line.WellNumbered lines) (hcited : ∀ k ∈ cited, k ∈ lines) :
    ∀ n ∈ cited.map Line.number, 0 ≤ n ∧ n < (lines.length : Int) := by
  intro n hn
  obtain ⟨k, hk, rfl⟩ := List.mem_map.mp hn
  exact ⟨hnum.number_nonneg (hcited k hk), hnum.number_lt (hcited k hk)⟩

theorem citedWhere_numbers (hnum : Line.WellNumbered lines) (hcited : ∀ k ∈ cited, k ∈ lines)
    (test : Line → Bool) :
    citedWhere lines test (cited.map (·.number)) = .ok ((cited.filter test).map (·.number)) := by
  induction cited with
  | nil => rfl
  | cons k rest ih =>
    rw [List.map_cons, citedWhere]
    refine bind_eq_ok_iff.mpr ⟨k, hnum.get_number (hcited k List.mem_cons_self), ?_⟩
    refine bind_eq_ok_iff.mpr ⟨_, ih fun m hm => hcited m (List.mem_cons_of_mem k hm), ?_⟩
    by_cases hk : test k
    · rw [if_pos hk, List.filter_cons_of_pos hk, List.map_cons]
      rfl
    · rw [if_neg hk, List.filter_cons_of_neg hk]
      rfl

theorem branchStates_numbers (hnum : Line.WellNumbered lines) (hcited : ∀ k ∈ cited, k ∈ lines)
    {start stop : Int} {k : Line} (hk : k ∈ cited) (hstart : start ≤ k.number)
    (hstop : k.number < stop) :
    branchStates lines (cited.map (·.number)) k.formula start stop = .ok true := by
  have hinside : (cited.map (·.number)).filter (fun n => start ≤ n && n < stop)
      = (cited.filter fun k => start ≤ k.number && k.number < stop).map (·.number) :=
    List.filter_map
  rw [branchStates, hinside]
  refine bind_eq_ok_iff.mpr ⟨_, Line.mapM_get_numbers hnum
    fun m hm => hcited m (List.mem_filter.mp hm).1, ?_⟩
  rw [pure_eq_ok_iff, eq_comm, Node.states_eq_true_iff]
  exact Node.formula_mem_formulas (List.mem_filter.mpr ⟨hk, by simp [hstart, hstop]⟩)

/-- Lines behind others are numbered from the length of these on. -/
theorem Line.WellNumbered.number_append {base more : List Line}
    (h : Line.WellNumbered (base ++ more)) (hl : l ∈ more) :
    (base.length : Int) ≤ l.number ∧ l.number < base.length + more.length := by
  obtain ⟨i, hi⟩ := List.getElem?_of_mem hl
  have hlt := (List.getElem?_eq_some_iff.mp hi).1
  have hnumber : l.number = (base.length + i : Nat) := by
    apply h
    rw [List.getElem?_append_right (by omega), Nat.add_sub_cancel_left]
    exact hi
  rw [hnumber]
  omega

theorem Sound.settled (h : Sound lines) : Line.Settled lines :=
  fun _ hl _ _ hn => h.cites_lt hl hn

/-! ### Single steps -/

/-- What is judged by the cited formulas alone is judged by the formulas of
the lines whose numbers are cited. -/
theorem citedProblem?_numbers {test : Formula → List Formula → Bool} {problem : StepProblem}
    (cited : List Line) (hnum : Line.WellNumbered lines) (hcited : ∀ k ∈ cited, k ∈ lines)
    (hcites : l.cites = cited.map (·.number))
    (htest : test l.formula (cited.map (·.formula)) = true) :
    citedProblem? lines l test problem = .ok none := by
  refine citedProblem?_eq_ok_none_iff.mpr ⟨cited, ?_, htest⟩
  rw [hcites]
  exact Line.mapM_get_numbers hnum hcited

theorem Drafted.problem?_eq {vocabulary : List String} {d : Draft} {number : Int}
    {rests : IndexSet} (hnum : Line.WellNumbered lines) (h : Drafted lines vocabulary d) :
    Line.problem? lines ⟨number, d.formula, d.rule, rests, d.cites⟩ = .ok none := by
  cases h with
  | @modusPonens i j a b hi hj hif hjf =>
    exact citedProblem?_numbers [i, j] hnum (by simp [hi, hj]) rfl
      (by simp [isModusPonens, hif, hjf])
  | @modusTollens i j a b hi hj hif hjf =>
    exact citedProblem?_numbers [i, j] hnum (by simp [hi, hj]) rfl
      (by simp [isModusTollens, hif, hjf])
  | @conjLeft l a b hl hf | @conjRight l a b hl hf =>
    exact citedProblem?_numbers [l] hnum (by simp [hl]) rfl (by simp [isConjElim, hf])
  | @conjIntro i j hi hj =>
    exact citedProblem?_numbers [i, j] hnum (by simp [hi, hj]) rfl
      (by simp [isConjIntro])
  | @disjIntro i j hi hj =>
    exact citedProblem?_numbers [i, j] hnum (by simp [hi, hj]) rfl
      (by simp [isDisjIntro])
  | @disjLeft l name hl _ | @disjRight l name hl _ =>
    exact citedProblem?_numbers [l] hnum (by simp [hl]) rfl (by simp [isDisjIntro])
  | @negElim l a hl hf =>
    exact citedProblem?_numbers [l] hnum (by simp [hl]) rfl
      (by simp [isDoubleNegation, hf])
  | @negIntro l hl =>
    exact citedProblem?_numbers [l] hnum (by simp [hl]) rfl
      (by simp [isDoubleNegation])

/-- A rule that adds one line adds a justified line. -/
theorem IsStep.justified {goal : Formula} (hnum : Line.WellNumbered lines)
    (h : IsStep lines goal l) : Justified lines l := by
  have hassumed : l.rule.isAssumed = false := Rule.isAssumed_of_single h.rule_mem
  have hsupported : l.rule ≠ .reductio := by
    intro hrule
    have := h.rule_mem
    simp [hrule] at this
  obtain ⟨d, hd, hl⟩ := h
  obtain ⟨rests, hrests, rfl⟩ := Draft.toLine_eq_ok_iff.mp hl
  obtain ⟨cited, hcited, hcites⟩ := hd.cites_lines
  constructor
  · rfl
  · rw [hcites]
    exact backward_numbers hnum hcited
  · exact hsupported
  · exact hd.problem?_eq hnum
  · rw [expectedRests, hassumed, if_neg Bool.false_ne_true]
    exact hrests

/-! ### Hypotheses -/

namespace Node

variable {search : Node → Run} {n : Node}

theorem justified_disjHypothesis {a b side : Formula} (hnum : Line.WellNumbered n.lines)
    (hl : l ∈ n.lines) (hf : l.formula = .disj a b) (hside : side = a ∨ side = b) :
    Justified n.lines (n.disjHypothesis l side) := by
  have hcited : ∀ k ∈ [l], k ∈ n.lines := by simpa using hl
  have htest : isDisjunct side [l.formula] = true := by simpa [isDisjunct, hf] using hside
  exact
    { number := rfl
      backward := backward_numbers hnum hcited
      supported := by simp [disjHypothesis, Line.ofHypothesis]
      step := citedProblem?_numbers [l] hnum hcited rfl htest
      rests := rfl }

theorem justified_conditionalHypothesis (n : Node) (side : Formula) :
    Justified n.lines (n.conditionalHypothesis side) where
  number := rfl
  backward := by simp [conditionalHypothesis, Line.ofHypothesis]
  supported := by simp [conditionalHypothesis, Line.ofHypothesis]
  step := rfl
  rests := rfl

/-! ### Blocks -/

theorem sound_conditionalBlock {a b : Formula} {lead : List Line} {e : Extension}
    (hgoal : n.goal = .imp a b) (hsound : Sound (n.lines ++ lead))
    (hhyp : n.conditionalHypothesis a ∈ lead) (he : n.conditionalBlock b lead = .ok e) :
    Sound (n.lines ++ e.lines) := by
  obtain ⟨earlier, hearlier, rfl⟩ := conditionalBlock_eq_ok_iff.mp he
  have hnum := hsound.wellNumbered
  -- a consequent that was established before the hypothesis is cited besides
  have hcited : ∀ k ∈ earlier ++ lead, k ∈ n.lines ++ lead := by
    intro k hk
    rcases List.mem_append.mp hk with hk | hk
    · rcases hearlier with ⟨-, rfl⟩ | ⟨-, m, hm, rfl⟩
      · simp at hk
      · obtain rfl := List.mem_singleton.mp hk
        exact List.mem_append_left lead (List.mem_reverse.mp (List.mem_of_find?_eq_some hm))
    · exact List.mem_append_right n.lines hk
  have hstates : Line.states (earlier ++ lead) b = true := by
    rw [states_eq_true_iff, formulas_append, List.mem_append]
    rcases hearlier with ⟨hlead, -⟩ | ⟨-, m, hm, rfl⟩
    · exact .inr hlead
    · exact .inl (mem_formulas.mpr ⟨m, by simp, by simpa using List.find?_some hm⟩)
  have hget := Line.mapM_get_numbers hnum hcited
  rw [Extension.lines, ← List.append_assoc, sound_append_singleton]
  refine ⟨hsound, by simp, backward_numbers hnum hcited, by simp, ?_, ?_⟩
  · exact conditionalProblem?_eq_ok_none_iff.mpr
      ⟨a, b, earlier ++ lead, hgoal, hget,
        ⟨_, List.mem_append_right earlier hhyp, rfl, rfl⟩, hstates⟩
  · refine Line.restsAt_eq_ok_iff.mpr ⟨earlier ++ lead, hget, ?_⟩
    rw [IndexSet.ext_iff_mem]
    intro m
    simp [Line.restsOf, or_comm]

/-- A branch of a disjunction elimination as the nested search finds it: the
hypothesis that one side holds, then lines that open no such block again, and
among all of them the goal. -/
structure Branch (n : Node) (disjunction : Line) (side : Formula) (branch : List Line) : Prop where
  sound : Sound (n.lines ++ branch)
  quiet : ∃ added, branch = n.disjHypothesis disjunction side :: added ∧
    Line.Quiet .disjHypothesis added
  states : n.goal ∈ formulas branch

theorem filter_quiet {more : List Line} (h : Line.Quiet .disjHypothesis more) (disjunction : Line) :
    more.filter (isHypothesisOf disjunction) = [] := by
  rw [List.filter_eq_nil_iff]
  intro k hk
  simp [isHypothesisOf, (h k hk).1]

/-- The check finds two hypotheses in the block. -/
theorem Branch.filter_isHypothesisOf {a b : Formula} {first second : List Line}
    (hs : Sound n.lines) (hl : l ∈ n.lines) (h₁ : n.Branch l a first) (h₂ : n.Branch l b second) :
    (l :: (first ++ second.map (Line.renumber first.length n.lines.length))).filter
        (isHypothesisOf l)
      = [n.disjHypothesis l a,
          (n.disjHypothesis l b).renumber first.length n.lines.length] := by
  obtain ⟨added₁, hfirst, hquiet₁⟩ := h₁.quiet
  obtain ⟨added₂, hsecond, hquiet₂⟩ := h₂.quiet
  -- the disjunction cites nothing as late as itself
  have hself : isHypothesisOf l l = false := by
    obtain ⟨i, hi⟩ := List.getElem?_of_mem hl
    obtain ⟨hnumber, hcites⟩ := (sound_iff.mp hs).1 i l hi
    rw [Bool.eq_false_iff, isHypothesisOf]
    intro h
    have hmem : l.number ∈ l.cites := by
      have : l.cites = [l.number] := by simpa using (Bool.and_eq_true_iff.mp h).2
      simp [this]
    have := hcites _ hmem
    omega
  -- renumbering leaves the citation of the disjunction alone
  have hhyp₁ : isHypothesisOf l (n.disjHypothesis l a) = true := by
    simp [isHypothesisOf, disjHypothesis, Line.ofHypothesis]
  have hhyp₂ : isHypothesisOf l
      ((n.disjHypothesis l b).renumber first.length n.lines.length) = true := by
    have hlt : ¬ (n.lines.length : Int) ≤ l.number := by
      have := hs.wellNumbered.number_lt hl
      omega
    simp [isHypothesisOf, disjHypothesis, Line.ofHypothesis, Line.renumber, hlt]
  rw [List.filter_cons_of_neg (by simp [hself]), List.filter_append]
  conv_lhs =>
    rw [hsecond, List.map_cons, List.filter_cons_of_pos hhyp₂, filter_quiet (hquiet₂.renumber _ _)]
  conv_lhs => arg 1; rw [hfirst, List.filter_cons_of_pos hhyp₁, filter_quiet hquiet₁]
  rfl

/-- What is cited at the end of a disjunction elimination stands before it. -/
theorem mem_append_of_mem_cons {lead : List Line} (hl : l ∈ n.lines) :
    ∀ k ∈ l :: lead, k ∈ n.lines ++ lead := by
  intro k hk
  rcases List.mem_cons.mp hk with rfl | hk
  · exact List.mem_append_left lead hl
  · exact List.mem_append_right n.lines hk

/-- The lines of both branches, the second renumbered, and a line behind them
that cites the disjunction and all of them. -/
theorem Branch.endsBranches {a b : Formula} {first second lead : List Line} {last : Line}
    (hs : Sound n.lines) (hl : l ∈ n.lines) (hf : l.formula = .disj a b)
    (h₁ : n.Branch l a first) (h₂ : n.Branch l b second)
    (hlead : lead = first ++ second.map (Line.renumber first.length n.lines.length))
    (hnumber : last.number = n.lines.length + lead.length) (hformula : last.formula = n.goal)
    (hcites : last.cites = (l :: lead).map (·.number)) :
    EndsBranches (n.lines ++ lead) last l n.lines.length (n.lines.length + first.length) := by
  have hfilter := Branch.filter_isHypothesisOf hs hl h₁ h₂
  have hnum : Line.WellNumbered (n.lines ++ lead) := by
    rw [hlead, ← List.append_assoc]
    exact (h₁.sound.append_renumber h₂.sound).wellNumbered
  rw [← hlead] at hfilter
  have hcited : ∀ k ∈ l :: lead, k ∈ n.lines ++ lead := mem_append_of_mem_cons hl
  have hget : ∀ k ∈ (l :: lead).filter (isHypothesisOf l),
      Line.get (n.lines ++ lead) k.number = .ok k :=
    fun k hk => hnum.get_number (hcited k (List.mem_filter.mp hk).1)
  rw [hfilter] at hget
  have hmin : min (n.lines.length : Int) (n.lines.length + first.length) = n.lines.length := by
    omega
  have hmax : max (n.lines.length : Int) (n.lines.length + first.length)
      = n.lines.length + first.length := by
    omega
  constructor
  · exact ⟨l.number, lead.map Line.number, hcites, hnum.get_number (hcited l List.mem_cons_self)⟩
  · rw [hcites, citedWhere_numbers hnum hcited, hfilter]
    rfl
  · rw [hmin, hmax]
    exact ⟨_, _, hget _ List.mem_cons_self,
      hget _ (List.mem_cons_of_mem _ List.mem_cons_self), hf⟩
  · -- the first branch reaches up to the second hypothesis
    obtain ⟨k, hk, hgoal⟩ := mem_formulas.mp h₁.states
    obtain ⟨hge, hlt⟩ := h₁.sound.wellNumbered.number_append hk
    rw [hmin, hmax, hcites, hformula, ← hgoal]
    exact branchStates_numbers hnum hcited (by simp [hlead, hk]) hge hlt
  · -- the second reaches up to the last line
    obtain ⟨k, hk, hgoal⟩ := mem_formulas.mp h₂.states
    obtain ⟨hge, hlt⟩ := h₂.sound.wellNumbered.number_append hk
    have hmem : k.renumber first.length n.lines.length ∈ l :: lead := by
      rw [hlead]
      exact List.mem_cons_of_mem l (List.mem_append_right first (List.mem_map_of_mem hk))
    have hlen : lead.length = first.length + second.length := by
      rw [hlead, List.length_append, List.length_map]
    rw [hmax, hcites, hformula, ← hgoal, ← Line.renumber_formula first.length n.lines.length k]
    refine branchStates_numbers hnum hcited hmem ?_ ?_
    · rw [Line.renumber_number]
      omega
    · rw [Line.renumber_number, hnumber]
      omega

theorem sound_disjElimBlock {a b : Formula} {first second : List Line}
    (hs : Sound n.lines) (hl : l ∈ n.lines) (hf : l.formula = .disj a b)
    (h₁ : n.Branch l a first) (h₂ : n.Branch l b second) :
    Sound (n.lines ++ (n.disjElimBlock l first second).lines) := by
  have hlead : Sound (n.lines ++ (n.disjElimBlock l first second).lead) := by
    rw [disjElimBlock, ← List.append_assoc]
    exact h₁.sound.append_renumber h₂.sound
  have hcited : ∀ k ∈ l :: (n.disjElimBlock l first second).lead,
      k ∈ n.lines ++ (n.disjElimBlock l first second).lead := mem_append_of_mem_cons hl
  rw [Extension.lines, ← List.append_assoc, sound_append_singleton]
  refine ⟨hlead, by simp [disjElimBlock], ?_, by simp [disjElimBlock], ?_, ?_⟩
  · exact backward_numbers hlead.wellNumbered hcited
  · have hends : EndsBranches (n.lines ++ (n.disjElimBlock l first second).lead)
        (n.disjElimBlock l first second).last l n.lines.length (n.lines.length + first.length) :=
      Branch.endsBranches hs hl hf h₁ h₂ rfl rfl rfl rfl
    exact disjElimProblem?_eq_ok_none_iff.mpr ⟨l, _, _, hends⟩
  · exact Line.restsAt_eq_ok_iff.mpr
      ⟨_, Line.mapM_get_numbers hlead.wellNumbered hcited, rfl⟩

/-! ### Candidates and runs -/

/-- What the search proves from a node is sound. -/
def CheckedAt (search : Node → Run) (n : Node) : Prop :=
  ∀ out, (search n).ending = .proved out → Sound out

theorem branch_of_proved {a b side : Formula} {out : List Line} (hs : Sound n.lines)
    (hanswer : NestedAnswer search n)
    (hnested : ∀ hypothesis goal, Justified n.lines hypothesis →
      CheckedAt search (n.assuming hypothesis goal))
    (hquiet : ∀ (hypothesis : Line) (goal : Formula), hypothesis.number = n.lines.length →
      QuietAt search .disjHypothesis (n.assuming hypothesis goal))
    (hincomplete : n.isComplete = false) (hl : l ∈ n.lines) (hf : l.formula = .disj a b)
    (hside : side = a ∨ side = b)
    (hout : (search (n.assuming (n.disjHypothesis l side) n.goal)).ending = .proved out) :
    n.Branch l side (out.drop n.lines.length) := by
  obtain ⟨added, hadded, hdrop⟩ := (hanswer.disj l side).eq_append hout
  have hgoal := ((hanswer.disj l side).continues out hout).2.2
  have hopen : Line.hasOpenBlock (n.assuming (n.disjHypothesis l side) n.goal).lines
      .disjHypothesis = true :=
    Line.hasOpenBlock_append_hypothesis hs.settled rfl
  rw [hdrop]
  constructor
  · rw [← hadded]
    exact hnested _ _ (justified_disjHypothesis hs.wellNumbered hl hf hside) out hout
  · refine ⟨added, rfl, hquiet (n.disjHypothesis l side) n.goal rfl hopen added ?_⟩
    rw [hout, hadded, assuming, List.append_assoc, List.singleton_append]
  · -- the node itself does not state the goal, so the branch does
    rw [hadded, formulas_append] at hgoal
    exact (List.mem_append.mp hgoal).resolve_left (states_eq_false_iff.mp hincomplete)

/-- What comes up at a sound node extends it to a sound sequence, if the nested
searches do so. -/
theorem Offers.sound {e : Extension} (hs : Sound n.lines) (hanswer : NestedAnswer search n)
    (hnested : ∀ hypothesis goal, Justified n.lines hypothesis →
      CheckedAt search (n.assuming hypothesis goal))
    (hquiet : ∀ (hypothesis : Line) (goal : Formula), hypothesis.number = n.lines.length →
      QuietAt search .disjHypothesis (n.assuming hypothesis goal))
    (he : n.Offers search e) : Sound (n.lines ++ e.lines) := by
  cases he with
  | single hl => exact sound_append_singleton.mpr ⟨hs, hl.justified hs.wellNumbered⟩
  | disjElim hl hf hincomplete _ h₁ h₂ =>
    exact sound_disjElimBlock hs hl hf
      (branch_of_proved hs hanswer hnested hquiet hincomplete hl hf (.inl rfl) h₁)
      (branch_of_proved hs hanswer hnested hquiet hincomplete hl hf (.inr rfl) h₂)
  | @conditional a b out _ hgoal _ _ hout he =>
    obtain ⟨added, hadded, hdrop⟩ := (hanswer.conditional a b).eq_append hout
    have hsound := hnested _ _ (justified_conditionalHypothesis n a) out hout
    rw [hadded, ← hdrop] at hsound
    exact sound_conditionalBlock hgoal hsound (by simp [hdrop]) he

theorem keeps_sound (head : Node) : head.Keeps Sound :=
  fun _ _ _ hs hl _ _ => sound_append_singleton.mpr ⟨hs, hl.justified hs.wellNumbered⟩

theorem checkedAt_search (head : Node) (hs : Sound head.lines) : CheckedAt Node.search head := by
  induction head using search_induction with
  | step head ih =>
    intro out hout
    rcases search_proved head.keeps_sound hs hout with
      ⟨-, hs', -⟩ | ⟨lines, found, e, hlines, hs', hfound, he, rfl⟩
    · exact hs'
    · have hoffers := (offers_of_find?_eq_some hfound he).1
      refine hoffers.sound hs' (nestedAnswer_search hs'.wellNumbered) ?_ ?_
      · intro hypothesis goal hhyp
        exact ih lines hypothesis goal hlines.length_le hlines.short
          (sound_append_singleton.mpr ⟨hs', hhyp⟩)
      · intro hypothesis goal hhyp
        exact search_quiet _ (assuming_wellNumbered hs'.wellNumbered hhyp)

end Node

/-- **What the search finds passes the check.**  At a node with sound lines the
candidates can be worked out and each of them extends the node to a sound
sequence; and if the search from it finds a proof, that proof is accepted. -/
theorem search_checked (n : Node) (hs : Sound n.lines) :
    (∃ found, n.candidates Node.search = .ok found ∧
      ∀ e ∈ found.candidates, Sound (n.lines ++ e.lines)) ∧
    ∀ out, n.search.ending = .proved out →
      verify out n.goal none false = .ok (.accepted .conclusion) := by
  have hanswer := Node.nestedAnswer_search hs.wellNumbered
  constructor
  · obtain ⟨found, hfound⟩ := Node.exists_candidates hs.wellNumbered hanswer
    refine ⟨found, hfound, fun e he => ?_⟩
    refine ((Node.mem_candidates_iff hfound).mp he).1.sound hs hanswer ?_ ?_
    · intro hypothesis goal hhyp
      exact Node.checkedAt_search _ (sound_append_singleton.mpr ⟨hs, hhyp⟩)
    · intro hypothesis goal hhyp
      exact Node.search_quiet _ (Node.assuming_wellNumbered hs.wellNumbered hhyp)
  · intro out hout
    have hsound : firstDefect out = .ok none := n.checkedAt_search hs out hout
    have hgoal := ((n.answers_search hs.wellNumbered).continues out hout).2.2
    have hstates : Line.states out n.goal = true := Node.states_eq_true_iff.mpr hgoal
    unfold verify
    refine bind_eq_ok_iff.mpr ⟨none, hsound, ?_⟩
    simp only [hstates, Bool.not_true, Bool.false_eq_true, if_false]
    rfl

/-- A goal that takes a disjunction elimination with a conditional proof in
each branch. -/
def chainedCases : Node :=
  ⟨Line.ofAssumptions [.disj (.var "P") (.var "Q"), .imp (.var "P") (.var "Q")],
    .imp (.var "R") (.var "Q"), default⟩

theorem chainedCases_checked :
    Sound chainedCases.lines ∧
    ∃ out found e,
      chainedCases.search.ending = .proved out ∧
      verify out chainedCases.goal none false = .ok (.accepted .conclusion) ∧
      chainedCases.candidates Node.search = .ok found ∧
      e ∈ found.candidates ∧ e.last.rule = .disjElim ∧ Sound (chainedCases.lines ++ e.lines) := by
  have hs : Sound chainedCases.lines := by decide +kernel
  have hfinished : chainedCases.search.status = .finished := by decide +kernel
  obtain ⟨out, hout⟩ := Run.exists_proved hfinished
  obtain ⟨⟨found, hfound, hsound⟩, hverify⟩ := search_checked chainedCases hs
  have hblock : (chainedCases.candidates Node.search).toOption.any
      (fun found => found.candidates.any fun e => e.last.rule = .disjElim) = true := by
    decide +kernel
  rw [hfound] at hblock
  obtain ⟨e, he, hrule⟩ : ∃ e ∈ found.candidates, e.last.rule = .disjElim := by
    simpa [Except.toOption] using hblock
  exact ⟨hs, out, found, e, hout, hverify out hout, hfound, he, hrule, hsound e he⟩

end NaturalDeduction
