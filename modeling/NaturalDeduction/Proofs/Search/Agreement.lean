/-
The search and the check agree on single steps.

The two know the rules in different forms.  The search runs through the lines,
or through the pairs of lines, and drafts what follows from them; the check is
given a line and looks at what its citations lead to.  On sound lines both come
to the same: a line that a rule adds is one that the check would let stand there
(`isStep_iff`).

There is one difference by design.  A disjunction may be introduced from one of
its sides, and then the check does not mind what the other side is; the search
tries only the variables that it knows of (`Line.WidensWithin`).

Main result: `single_candidate_iff`.
-/
import NaturalDeduction.Proofs.Search.Checked

namespace NaturalDeduction

variable {lines cited : List Line} {l : Line} {goal : Formula} {vocabulary : List String}

/-- If the line introduces a disjunction from one line, it has the formula of
that line on one side and a variable of the vocabulary on the other. -/
def Line.WidensWithin (lines : List Line) (vocabulary : List String) (l : Line) : Prop :=
  l.rule = .disjIntro → ∀ n, l.cites = [n] →
    ∃ k name, Line.get lines n = .ok k ∧ name ∈ vocabulary ∧
      (l.formula = .disj k.formula (.var name) ∨ l.formula = .disj (.var name) k.formula)

theorem IsStep.widensWithin (hnum : Line.WellNumbered lines) (h : IsStep lines goal l) :
    l.WidensWithin lines (Line.vocabulary lines goal) := by
  obtain ⟨d, hd, hl⟩ := h
  obtain ⟨rests, -, rfl⟩ := Draft.toLine_eq_ok_iff.mp hl
  intro hrule n hcites
  cases hd with
  | @disjLeft k name hk hname =>
    obtain rfl : k.number = n := by simpa using hcites
    exact ⟨k, name, hnum.get_number hk, hname, .inl rfl⟩
  | @disjRight k name hk hname =>
    obtain rfl : k.number = n := by simpa using hcites
    exact ⟨k, name, hnum.get_number hk, hname, .inr rfl⟩
  | disjIntro => simp at hcites
  | _ => cases hrule

/-! ### From the check to the drafts -/

theorem exists_pair_of_map {a b : Formula} (h : cited.map (·.formula) = [a, b]) :
    ∃ i j : Line, cited = [i, j] ∧ i.formula = a ∧ j.formula = b := by
  obtain ⟨i, js, rfl, hi, hjs⟩ := List.map_eq_cons_iff.mp h
  obtain ⟨j, rfl, hj⟩ := List.map_eq_singleton_iff.mp hjs
  exact ⟨i, j, rfl, hi, hj⟩

section Tests

variable {f : Formula} (hlines : ∀ k ∈ cited, k ∈ lines)

include hlines

theorem drafted_of_isModusPonens (h : isModusPonens f (cited.map (·.formula)) = true) :
    Drafted lines vocabulary ⟨f, .modusPonens, cited.map (·.number)⟩ := by
  obtain ⟨a, hfs⟩ := isModusPonens_iff.mp h
  obtain ⟨i, j, rfl, hi, hj⟩ := exists_pair_of_map hfs
  exact .modusPonens (hlines i (by simp)) (hlines j (by simp)) hi hj

theorem drafted_of_isModusTollens (h : isModusTollens f (cited.map (·.formula)) = true) :
    Drafted lines vocabulary ⟨f, .modusTollens, cited.map (·.number)⟩ := by
  obtain ⟨a, b, hfs, rfl⟩ := isModusTollens_iff.mp h
  obtain ⟨i, j, rfl, hi, hj⟩ := exists_pair_of_map hfs
  exact .modusTollens (hlines i (by simp)) (hlines j (by simp)) hi hj

theorem drafted_of_isConjElim (h : isConjElim f (cited.map (·.formula)) = true) :
    Drafted lines vocabulary ⟨f, .conjElim, cited.map (·.number)⟩ := by
  obtain ⟨a, b, hfs, hside⟩ := isConjElim_iff.mp h
  obtain ⟨k, rfl, hk⟩ := List.map_eq_singleton_iff.mp hfs
  rcases hside with rfl | rfl
  · exact .conjLeft (hlines k (by simp)) hk
  · exact .conjRight (hlines k (by simp)) hk

theorem drafted_of_isConjIntro (h : isConjIntro f (cited.map (·.formula)) = true) :
    Drafted lines vocabulary ⟨f, .conjIntro, cited.map (·.number)⟩ := by
  obtain ⟨a, b, hfs, rfl⟩ := isConjIntro_iff.mp h
  obtain ⟨i, j, rfl, rfl, rfl⟩ := exists_pair_of_map hfs
  exact .conjIntro (hlines i (by simp)) (hlines j (by simp))

theorem drafted_of_isDisjIntro (h : isDisjIntro f (cited.map (·.formula)) = true)
    (hwidens : ∀ k, cited = [k] → ∃ name ∈ vocabulary,
      f = .disj k.formula (.var name) ∨ f = .disj (.var name) k.formula) :
    Drafted lines vocabulary ⟨f, .disjIntro, cited.map (·.number)⟩ := by
  rcases isDisjIntro_iff.mp h with ⟨a, b, hfs, rfl⟩ | ⟨a, b, c, hfs, -, -⟩
  · obtain ⟨i, j, rfl, rfl, rfl⟩ := exists_pair_of_map hfs
    exact .disjIntro (hlines i (by simp)) (hlines j (by simp))
  · obtain ⟨k, rfl, -⟩ := List.map_eq_singleton_iff.mp hfs
    obtain ⟨name, hname, rfl | rfl⟩ := hwidens k rfl
    · exact .disjLeft (hlines k (by simp)) hname
    · exact .disjRight (hlines k (by simp)) hname

theorem drafted_of_isDoubleNegation (h : isDoubleNegation f (cited.map (·.formula)) = true) :
    Drafted lines vocabulary ⟨f, .doubleNegation, cited.map (·.number)⟩ := by
  obtain ⟨a, hfs, hsigns⟩ := isDoubleNegation_iff.mp h
  obtain ⟨k, rfl, rfl⟩ := List.map_eq_singleton_iff.mp hfs
  rcases hsigns with rfl | hk
  · exact .negIntro (hlines k (by simp))
  · exact .negElim (hlines k (by simp)) hk

end Tests

section SingleRule

variable
  (hrule : l.rule ∈ [Rule.modusPonens, .modusTollens, .conjElim, .conjIntro, .disjIntro,
    .doubleNegation])

include hrule

/-- What the check accepts as a rule that adds one line is among the drafts. -/
theorem Justified.drafted (hnum : Line.WellNumbered lines) (h : Justified lines l)
    (hwidens : l.WidensWithin lines vocabulary) :
    Drafted lines vocabulary ⟨l.formula, l.rule, l.cites⟩ := by
  obtain ⟨cited, hcited⟩ := Line.exists_mapM_get h.backward
  obtain ⟨hnumbers, hlines⟩ := Line.eq_map_number hnum (fun n hn => (h.backward n hn).1) hcited
  -- the check looks at the formulas of the very lines whose numbers are cited
  have hasked : ∀ {test problem}, citedProblem? lines l test problem = .ok none →
      test l.formula (cited.map (·.formula)) = true := by
    intro test problem hnone
    obtain ⟨cited', hcited', htest⟩ := citedProblem?_eq_ok_none_iff.mp hnone
    obtain rfl := Except.ok.inj (hcited.symm.trans hcited')
    exact htest
  have hstep := h.step
  rw [Line.problem?] at hstep
  simp only [List.mem_cons, List.not_mem_nil, or_false] at hrule
  rw [hnumbers]
  rcases hrule with hrule | hrule | hrule | hrule | hrule | hrule <;> rw [hrule] at hstep ⊢
  · exact drafted_of_isModusPonens hlines (hasked hstep)
  · exact drafted_of_isModusTollens hlines (hasked hstep)
  · exact drafted_of_isConjElim hlines (hasked hstep)
  · exact drafted_of_isConjIntro hlines (hasked hstep)
  · apply drafted_of_isDisjIntro hlines (hasked hstep)
    rintro k rfl
    obtain ⟨k', name, hk', hname, hf⟩ := hwidens hrule k.number hnumbers
    obtain rfl := Except.ok.inj ((hnum.get_number (hlines k (by simp))).symm.trans hk')
    exact ⟨name, hname, hf⟩
  · exact drafted_of_isDoubleNegation hlines (hasked hstep)

/-- **The search tries the single steps that the check accepts**, as far as they
stay within the vocabulary. -/
theorem isStep_iff (hnum : Line.WellNumbered lines) :
    IsStep lines goal l ↔
      Justified lines l ∧ l.WidensWithin lines (Line.vocabulary lines goal) := by
  constructor
  · intro h
    exact ⟨h.justified hnum, h.widensWithin hnum⟩
  · rintro ⟨h, hwidens⟩
    refine ⟨_, h.drafted hrule hnum hwidens, Draft.toLine_eq_ok_iff.mpr ⟨l.rests, ?_, ?_⟩⟩
    · have hrests := h.rests
      rw [expectedRests, Rule.isAssumed_of_single hrule, if_neg Bool.false_ne_true] at hrests
      exact hrests
    · rw [← h.number]

/-- A block ends with a rule of its own, so a single line with one of the other
rules comes up by that rule. -/
theorem Node.offers_single_iff {search : Node → Run} {n : Node} :
    n.Offers search (.single l) ↔ IsStep n.lines n.goal l := by
  refine ⟨fun h => ?_, .single⟩
  generalize he : Extension.single l = e at h
  cases h with
  | single hl =>
    obtain rfl := congrArg Extension.last he
    exact hl
  | disjElim =>
    have hlast : l.rule = .disjElim := congrArg (·.last.rule) he
    simp [hlast] at hrule
  | conditional _ _ _ _ hblock =>
    obtain ⟨earlier, -, rfl⟩ := conditionalBlock_eq_ok_iff.mp hblock
    have hlast : l.rule = .conditionalProof := congrArg (·.last.rule) he
    simp [hlast] at hrule

end SingleRule

/-! ### Candidates -/

/-- **The search and the check agree on single steps.**  At a node with sound
lines, let `l` be a line with one of the rules that add one line, and with a
formula that is on no line yet.  It is a candidate exactly when the lines stay
sound with `l` behind them, except that a disjunction introduced from one line
has to be of that line and a variable of the vocabulary.  That `l` has the next
number need not be required: it follows on either side. -/
theorem single_candidate_iff (n : Node) (l : Line) (hs : Sound n.lines)
    (hrule : l.rule ∈ [Rule.modusPonens, .modusTollens, .conjElim, .conjIntro, .disjIntro,
      .doubleNegation])
    (hnew : ∀ k ∈ n.lines, k.formula ≠ l.formula) :
    ∃ found, n.candidates Node.search = .ok found ∧
      (.single l ∈ found.candidates ↔
        Sound (n.lines ++ [l]) ∧ l.WidensWithin n.lines (Line.vocabulary n.lines n.goal)) := by
  obtain ⟨found, hfound⟩ :=
    Node.exists_candidates hs.wellNumbered (Node.nestedAnswer_search hs.wellNumbered)
  have hisNew : n.isNew (.single l) = true := by
    rw [Node.isNew_iff, Node.mem_formulas]
    rintro ⟨k, hk, hkf⟩
    exact hnew k hk hkf
  refine ⟨found, hfound, ?_⟩
  rw [Node.mem_candidates_iff hfound, Node.offers_single_iff hrule, isStep_iff hrule hs.wellNumbered,
    sound_append_singleton]
  simp only [hs, hisNew, true_and, and_true]

/-- One assumption, and a goal with another variable. -/
def lonePremise : Node :=
  ⟨Line.ofAssumptions [.var "P"], .var "Q", default⟩

/-- The disjunction of the assumption and a formula that need not be a variable. -/
def widened (other : Formula) : Line :=
  ⟨1, .disj (.var "P") other, .disjIntro, .ofList [0], [0]⟩

/-- With the variable of the goal it is a candidate.  With a negation it is not,
although the check accepts it. -/
theorem single_candidate_iff_lonePremise :
    ∃ found, lonePremise.candidates Node.search = .ok found ∧
      .single (widened (.var "Q")) ∈ found.candidates ∧
      Sound (lonePremise.lines ++ [widened (.neg (.var "Q"))]) ∧
      .single (widened (.neg (.var "Q"))) ∉ found.candidates := by
  have hs : Sound lonePremise.lines := by decide
  obtain ⟨found, hfound, hiff⟩ :=
    single_candidate_iff lonePremise (widened (.var "Q")) hs (by decide) (by decide)
  obtain ⟨found', hfound', hiff'⟩ :=
    single_candidate_iff lonePremise (widened (.neg (.var "Q"))) hs (by decide) (by decide)
  obtain rfl := Except.ok.inj (hfound.symm.trans hfound')
  refine ⟨found, hfound, hiff.mpr ⟨by decide, ?_⟩, by decide, ?_⟩
  · intro _ n hn
    obtain rfl : 0 = n := by simpa [widened] using hn
    exact ⟨.ofAssumption (.var "P") 0, "Q", rfl, by decide, .inl rfl⟩
  · intro hmem
    obtain ⟨k, name, hk, -, hf⟩ := (hiff'.mp hmem).2 rfl 0 rfl
    obtain rfl : Line.ofAssumption (.var "P") 0 = k := Except.ok.inj hk
    simp [widened, Line.ofAssumption] at hf

end NaturalDeduction
