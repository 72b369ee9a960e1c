/-
What accepted lines mean.

A step that the check accepts is entailed by the lines it cites, whatever its
rule (`Sound.holds_of_cited`).  For the rules that close a block this is cheap:
among the lines they cite is one that states the formula or the consequent.
They may well cite hypotheses besides, and then rest on them.

Citations lead backwards.  So what holds of the assumptions and hypotheses of a
sound sequence, and is handed on from cited lines to the lines that cite them,
holds of every line (`Sound.citation_induction`).  As a line rests on what the
lines it cites rest on (`Sound.mem_rests_iff`), truth is handed on from the
lines it rests on.

Main result: `verify_rests_entail`.
-/
import NaturalDeduction.Proofs.Check.Justified
import NaturalDeduction.Proofs.Formula.Entailment

namespace NaturalDeduction

open Formula

variable {lines : List Line} {l k : Line}

/-! ### Steps on cited formulas -/

section Tests

variable {f : Formula} {fs : List Formula}

theorem entails_of_isModusPonens (h : isModusPonens f fs = true) : Entails fs f := by
  obtain ⟨a, rfl⟩ := isModusPonens_iff.mp h
  intro v hv
  exact holds_imp.mp (hv (.imp a f) (by simp)) (hv a (by simp))

theorem entails_of_isModusTollens (h : isModusTollens f fs = true) : Entails fs f := by
  obtain ⟨a, b, rfl, rfl⟩ := isModusTollens_iff.mp h
  intro v hv
  have hb := holds_neg.mp (hv (.neg b) (by simp))
  exact holds_neg.mpr fun ha => hb (holds_imp.mp (hv (.imp a b) (by simp)) ha)

theorem entails_of_isConjElim (h : isConjElim f fs = true) : Entails fs f := by
  obtain ⟨a, b, rfl, hside⟩ := isConjElim_iff.mp h
  intro v hv
  obtain ⟨ha, hb⟩ := holds_conj.mp (hv (.conj a b) (by simp))
  rcases hside with rfl | rfl
  · exact ha
  · exact hb

theorem entails_of_isConjIntro (h : isConjIntro f fs = true) : Entails fs f := by
  obtain ⟨a, b, rfl, rfl⟩ := isConjIntro_iff.mp h
  intro v hv
  exact holds_conj.mpr ⟨hv a (by simp), hv b (by simp)⟩

theorem entails_of_isDisjIntro (h : isDisjIntro f fs = true) : Entails fs f := by
  intro v hv
  rcases isDisjIntro_iff.mp h with ⟨a, b, rfl, rfl⟩ | ⟨a, b, c, rfl, rfl, rfl | rfl⟩
  · exact holds_disj.mpr (.inl (hv a (by simp)))
  · exact holds_disj.mpr (.inl (hv a (by simp)))
  · exact holds_disj.mpr (.inr (hv a (by simp)))

theorem entails_of_isDoubleNegation (h : isDoubleNegation f fs = true) : Entails fs f := by
  obtain ⟨a, rfl, hsigns⟩ := isDoubleNegation_iff.mp h
  intro v hv
  have ha := hv a (by simp)
  rcases hsigns with rfl | rfl
  · simpa [holds] using ha
  · simpa [holds] using ha

end Tests

/-! ### Cited lines -/

theorem Line.states_eq_true_iff {f : Formula} :
    Line.states lines f = true ↔ ∃ k ∈ lines, k.formula = f := by
  simp [Line.states]

/-- A branch that states a formula does so on a cited line inside it. -/
theorem exists_of_branchStates {indices : List Int} {f : Formula} {start stop : Int}
    (h : branchStates lines indices f start stop = .ok true) :
    ∃ n ∈ indices, (start ≤ n ∧ n < stop) ∧ ∃ k, Line.get lines n = .ok k ∧ k.formula = f := by
  rw [branchStates] at h
  obtain ⟨inside, hinside, h⟩ := bind_eq_ok_iff.mp h
  obtain ⟨k, hk, hf⟩ := Line.states_eq_true_iff.mp (pure_eq_ok_iff.mp h).symm
  obtain ⟨n, hn, hget⟩ := exists_of_mem_mapM hinside hk
  obtain ⟨hn, hinside⟩ := List.mem_filter.mp hn
  exact ⟨n, hn, by simpa using hinside, k, hget, hf⟩

/-- An index that is cited in a sound sequence is a place of it. -/
theorem Sound.get_cited (hs : Sound lines) (hl : l ∈ lines) {n : Int} (hn : n ∈ l.cites)
    (hk : Line.get lines n = .ok k) : ∃ j : Nat, n = j ∧ lines[j]? = some k := by
  obtain ⟨i, hi⟩ := List.getElem?_of_mem hl
  have hnonneg := (((sound_iff.mp hs).1 i l hi).2 n hn).1
  exact ⟨n.toNat, (Int.toNat_of_nonneg hnonneg).symm, (Line.get_eq_ok_iff hnonneg).mp hk⟩

theorem Sound.exists_cited (hs : Sound lines) (hl : l ∈ lines) :
    ∃ cited, l.cites.mapM (Line.get lines) = .ok cited ∧
      ∀ k, k ∈ cited ↔ ∃ j : Nat, (j : Int) ∈ l.cites ∧ lines[j]? = some k := by
  obtain ⟨i, hi⟩ := List.getElem?_of_mem hl
  have hlt := (List.getElem?_eq_some_iff.mp hi).1
  have hrange : ∀ n ∈ l.cites, 0 ≤ n ∧ n < (lines.length : Int) := by
    intro n hn
    obtain ⟨hnonneg, hn⟩ := ((sound_iff.mp hs).1 i l hi).2 n hn
    exact ⟨hnonneg, by omega⟩
  obtain ⟨cited, hcited⟩ := Line.exists_mapM_get hrange
  refine ⟨cited, hcited, fun k => ⟨fun hk => ?_, ?_⟩⟩
  · obtain ⟨n, hn, hget⟩ := exists_of_mem_mapM hcited hk
    obtain ⟨j, rfl, hj⟩ := hs.get_cited hl hn hget
    exact ⟨j, hn, hj⟩
  · rintro ⟨j, hj, hget⟩
    obtain ⟨k', hk', hget'⟩ := exists_mem_of_mapM hcited hj
    rw [Line.get_natCast, hget] at hget'
    obtain rfl := Option.some.inj hget'
    exact hk'

/-! ### Any step -/

/-- What the rules that add one line ask of the cited formulas makes them entail
the line. -/
theorem entails_of_citedProblem? {test : Formula → List Formula → Bool} {problem : StepProblem}
    {cited : List Line} (htest : ∀ {f fs}, test f fs = true → Entails fs f)
    (hcited : l.cites.mapM (Line.get lines) = .ok cited)
    (h : citedProblem? lines l test problem = .ok none) :
    Entails (cited.map (·.formula)) l.formula := by
  obtain ⟨cited', hcited', htested⟩ := citedProblem?_eq_ok_none_iff.mp h
  obtain rfl := Except.ok.inj (hcited.symm.trans hcited')
  exact htest htested

/-- An accepted step is entailed by the lines it cites. -/
theorem entails_of_problem? {cited : List Line} (hsupported : l.rule ≠ .reductio)
    (hassumed : l.rule.isAssumed = false) (hcited : l.cites.mapM (Line.get lines) = .ok cited)
    (h : l.problem? lines = .ok none) : Entails (cited.map (·.formula)) l.formula := by
  rw [Line.problem?] at h
  cases hrule : l.rule <;> rw [hrule] at h hassumed <;> simp only at h
  case assumption | conditionalHypothesis | disjHypothesis => cases hassumed
  case reductio => exact absurd hrule hsupported
  case modusPonens => exact entails_of_citedProblem? entails_of_isModusPonens hcited h
  case modusTollens => exact entails_of_citedProblem? entails_of_isModusTollens hcited h
  case conjElim => exact entails_of_citedProblem? entails_of_isConjElim hcited h
  case conjIntro => exact entails_of_citedProblem? entails_of_isConjIntro hcited h
  case disjIntro => exact entails_of_citedProblem? entails_of_isDisjIntro hcited h
  case doubleNegation => exact entails_of_citedProblem? entails_of_isDoubleNegation hcited h
  case disjElim =>
    -- either branch states the formula on a cited line
    obtain ⟨disjunction, i, j, hends⟩ := disjElimProblem?_eq_ok_none_iff.mp h
    obtain ⟨n, hn, -, k, hk, hf⟩ := exists_of_branchStates hends.first
    obtain ⟨k', hk', hget⟩ := exists_mem_of_mapM hcited hn
    obtain rfl := Except.ok.inj (hk.symm.trans hget)
    exact .of_mem (List.mem_map.mpr ⟨k, hk', hf⟩)
  case conditionalProof =>
    -- the consequent is cited, so the antecedent need not be true
    obtain ⟨a, b, cited', hf, hcited', -, hstates⟩ := conditionalProblem?_eq_ok_none_iff.mp h
    obtain rfl := Except.ok.inj (hcited.symm.trans hcited')
    obtain ⟨k, hk, hkf⟩ := Line.states_eq_true_iff.mp hstates
    intro v hv
    rw [hf]
    exact holds_imp.mpr fun _ => hv b (List.mem_map.mpr ⟨k, hk, hkf⟩)

namespace Sound

variable {v : String → Bool}

/-- A line that is drawn from others is true wherever these are. -/
theorem holds_of_cited (hs : Sound lines) (hl : l ∈ lines) (hassumed : l.rule.isAssumed = false)
    (hv : ∀ (j : Nat) (k : Line), (j : Int) ∈ l.cites → lines[j]? = some k →
      k.formula.holds v = true) :
    l.formula.holds v = true := by
  obtain ⟨cited, hcited, hmem⟩ := hs.exists_cited hl
  obtain ⟨hsupported, hstep⟩ := (sound_iff.mp hs).2.1 l hl
  apply entails_of_problem? hsupported hassumed hcited hstep v
  intro f hf
  obtain ⟨k, hk, rfl⟩ := List.mem_map.mp hf
  obtain ⟨j, hj, hget⟩ := (hmem k).mp hk
  exact hv j k hj hget

/-- A line that is drawn from others rests on what they rest on. -/
theorem mem_rests_iff (hs : Sound lines) (hl : l ∈ lines) (hassumed : l.rule.isAssumed = false)
    {n : Int} :
    n ∈ l.rests ↔ ∃ (j : Nat) (k : Line), (j : Int) ∈ l.cites ∧ lines[j]? = some k ∧
      n ∈ k.rests := by
  have hrests := (sound_iff.mp hs).2.2 l hl
  rw [expectedRests, hassumed, if_neg Bool.false_ne_true] at hrests
  obtain ⟨cited, hcited, hunion⟩ := Line.restsAt_eq_ok_iff.mp hrests
  obtain ⟨cited', hcited', hmem⟩ := hs.exists_cited hl
  obtain rfl := Except.ok.inj (hcited.symm.trans hcited')
  rw [hunion, Line.restsOf, IndexSet.mem_unions]
  simp only [List.mem_map, exists_exists_and_eq_and, hmem]
  grind

/-- An assumption or a hypothesis rests on itself. -/
theorem rests_of_isAssumed (hs : Sound lines) {i : Nat} (hi : lines[i]? = some l)
    (hassumed : l.rule.isAssumed = true) : l.rests = .singleton i := by
  have hrests := (sound_iff.mp hs).2.2 l (List.mem_of_getElem? hi)
  rw [expectedRests, if_pos hassumed, hs.wellNumbered i l hi] at hrests
  exact pure_eq_ok_iff.mp hrests

/-- **Induction along citations.**  What assumptions and hypotheses have, and
lines drawn from others have if these do, every line has. -/
theorem citation_induction {P : Nat → Line → Prop} (hs : Sound lines)
    (assumed : ∀ i l, lines[i]? = some l → l.rule.isAssumed = true → P i l)
    (drawn : ∀ i l, lines[i]? = some l → l.rule.isAssumed = false →
      (∀ (j : Nat) (k : Line), (j : Int) ∈ l.cites → lines[j]? = some k → P j k) → P i l)
    {i : Nat} (hi : lines[i]? = some l) : P i l := by
  -- on the place of the line, as citations lead to lower ones
  induction i using Nat.strong_induction_on generalizing l with
  | h i ih =>
    rcases hassumed : l.rule.isAssumed with - | -
    · refine drawn i l hi hassumed fun j k hj hk => ih j ?_ hk
      have := ((sound_iff.mp hs).1 i l hi).2 j hj
      omega
    · exact assumed i l hi hassumed

/-- The lines are true wherever the assumptions and hypotheses among them are. -/
theorem holds_of_assumed (hs : Sound lines)
    (hv : ∀ k ∈ lines, k.rule.isAssumed = true → k.formula.holds v = true) (hl : l ∈ lines) :
    l.formula.holds v = true := by
  obtain ⟨i, hi⟩ := List.getElem?_of_mem hl
  refine hs.citation_induction (P := fun _ l => l.formula.holds v = true) ?_ ?_ hi
  · intro i l hi hassumed
    exact hv l (List.mem_of_getElem? hi) hassumed
  · intro i l hi hassumed ih
    exact hs.holds_of_cited (List.mem_of_getElem? hi) hassumed ih

/-- A line is true wherever the lines that it rests on are. -/
theorem holds_of_rests (hs : Sound lines) (hl : l ∈ lines)
    (hv : ∀ (i : Nat) (k : Line), lines[i]? = some k → (i : Int) ∈ l.rests →
      k.formula.holds v = true) :
    l.formula.holds v = true := by
  obtain ⟨i, hi⟩ := List.getElem?_of_mem hl
  -- a cited line rests on less, so the premise on `v` goes into the induction
  revert hv
  refine hs.citation_induction (P := fun _ l => (∀ (i : Nat) (k : Line), lines[i]? = some k →
    (i : Int) ∈ l.rests → k.formula.holds v = true) → l.formula.holds v = true) ?_ ?_ hi
  · intro i l hi hassumed hv
    exact hv i l hi (by simp [hs.rests_of_isAssumed hi hassumed])
  · intro i l hi hassumed ih hv
    have hl := List.mem_of_getElem? hi
    refine hs.holds_of_cited hl hassumed fun j k hj hk => ih j k hj hk fun m k' hm hrests => ?_
    exact hv m k' hm ((hs.mem_rests_iff hl hassumed).mpr ⟨j, k, hj, hk, hrests⟩)

end Sound

/-! ### Accepted sequences -/

/-- Without the truth table, a sequence is accepted when nothing is wrong with
the lines and one of them states the goal. -/
theorem verify_verified_iff {goal : Formula} {assumptions : Option (List Formula)} :
    (∃ verdict, verify lines goal assumptions false = .ok verdict ∧ verdict.verified = true) ↔
      Sound lines ∧ ∃ l ∈ lines, l.formula = goal := by
  rw [← Line.states_eq_true_iff, Sound]
  unfold verify
  rcases hdefect : firstDefect lines with fault | defect
  · simp [bind, Except.bind]
  · rcases defect with - | d
    · rcases hstates : Line.states lines goal with - | -
      · simp [bind, Except.bind, pure, Except.pure, Verdict.verified]
      · cases assumptions <;> simp [bind, Except.bind, pure, Except.pure, Verdict.verified]
    · simp [bind, Except.bind, pure, Except.pure, Verdict.verified]

/-- **What a line rests on entails it.**  In a sequence that the check accepts
without the truth table, each line is true under every valuation that makes the
lines true that it rests on. -/
theorem verify_rests_entail (lines : List Line) (goal : Formula)
    (assumptions : Option (List Formula)) (verdict : Verdict)
    (h : verify lines goal assumptions false = .ok verdict) (hverified : verdict.verified = true) :
    ∀ l ∈ lines, ∀ v : String → Bool,
      (∀ (i : Nat) (k : Line), lines[i]? = some k → (i : Int) ∈ l.rests →
        k.formula.holds v = true) →
      l.formula.holds v = true := by
  intro l hl v hv
  have hs := (verify_verified_iff.mp ⟨verdict, h, hverified⟩).1
  exact hs.holds_of_rests hl hv

/-- The line that ends the case analysis below. -/
def caseAnalysisEnd : Line :=
  ⟨7, .var "W", .disjElim, .ofList [0, 1, 2, 3, 5], [0, 3, 4, 5, 6]⟩

/-- A case analysis: `W` follows from `P` and from `Q`, and so from their
disjunction. -/
def caseAnalysis : List Line :=
  [⟨0, .disj (.var "P") (.var "Q"), .assumption, .ofList [0], []⟩,
   ⟨1, .imp (.var "P") (.var "W"), .assumption, .ofList [1], []⟩,
   ⟨2, .imp (.var "Q") (.var "W"), .assumption, .ofList [2], []⟩,
   ⟨3, .var "P", .disjHypothesis, .ofList [3], [0]⟩,
   ⟨4, .var "W", .modusPonens, .ofList [1, 3], [1, 3]⟩,
   ⟨5, .var "Q", .disjHypothesis, .ofList [5], [0]⟩,
   ⟨6, .var "W", .modusPonens, .ofList [2, 5], [2, 5]⟩,
   caseAnalysisEnd]

/-- The last line of the case analysis rests on both hypotheses besides the
assumptions. -/
theorem caseAnalysis_rests_entail :
    verify caseAnalysis (.var "W") none false = .ok (.accepted .conclusion) ∧
    ∀ v : String → Bool,
      (∀ i ∈ [0, 1, 2, 3, 5], ∀ k, caseAnalysis[i]? = some k → k.formula.holds v = true) →
      (Formula.var "W").holds v = true := by
  have hverify : verify caseAnalysis (.var "W") none false = .ok (.accepted .conclusion) := by
    decide +kernel
  refine ⟨hverify, fun v hv => ?_⟩
  apply verify_rests_entail caseAnalysis _ none _ hverify rfl caseAnalysisEnd (by decide) v
  intro i k hi hrests
  refine hv i ?_ k hi
  simp only [caseAnalysisEnd, IndexSet.mem_ofList, List.mem_cons, List.not_mem_nil, or_false]
    at hrests ⊢
  omega

end NaturalDeduction
