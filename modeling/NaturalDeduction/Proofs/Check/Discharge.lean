/-
Hypotheses that are still in force.

The check keeps hypotheses in the sets that lines rest on, also those that a
closing line has discharged, and it does not ask where a line that states the
goal stands.  So an accepted goal may rest on hypotheses in two ways that the
sets do not tell apart: through lines whose block was closed around them, as it
should be, or through a hypothesis that is cited outside of its block
(`reusedHypothesis_leaks`).

`Follows lines H i` tells them apart.  It says that the line at `i` is drawn
from assumptions and from hypotheses at the places `H` alone, where a closing
line puts the hypotheses that it discharges in force for the lines it was drawn
from.

* What follows with some hypotheses in force is true wherever these and the
  assumptions are (`Follows.holds`).
* Every line of a sound sequence follows with the hypotheses in force that it
  rests on (`Sound.follows`).
* A line that closes a block follows with fewer.  The check makes sure that it
  cites a hypothesis to discharge, and those that it discharges need not be in
  force: for a conditional proof the ones that state the antecedent
  (`Sound.conditionalProof_follows`), for a disjunction elimination in each
  branch the ones that state its side (`Sound.disjElim_follows`).

Main result: `verify_sound_in_force`.
-/
import Mathlib.Order.BooleanAlgebra.Set
import NaturalDeduction.Line.Blocks
import NaturalDeduction.Proofs.Check.Entailment

namespace NaturalDeduction

open Formula

variable {lines : List Line} {l : Line} {H H' : Set Nat} {v : String → Bool} {f : Formula}

/-! ### Lines that follow -/

/-- The line cites the line at `j`, which states `f`. -/
def Line.CitesFormula (lines : List Line) (l : Line) (j : Nat) (f : Formula) : Prop :=
  (j : Int) ∈ l.cites ∧ ∃ k, lines[j]? = some k ∧ k.formula = f

/-- The places of the hypotheses that the line discharges and that state
`f`. -/
def Line.discharged (lines : List Line) (l : Line) (f : Formula) : Set Nat :=
  {p | ∃ h, lines[p]? = some h ∧ l.discharges h.rule p = true ∧ h.formula = f}

/-- The places that the line at `i` rests on. -/
def Line.groundsAt (lines : List Line) (i : Nat) : Set Nat :=
  {j | ∃ l, lines[i]? = some l ∧ (j : Int) ∈ l.rests}

theorem Line.groundsAt_eq {i : Nat} (hi : lines[i]? = some l) :
    groundsAt lines i = {j : Nat | (j : Int) ∈ l.rests} := by
  simp [groundsAt, hi]

open Line

/-- The line at a place follows from assumptions with the hypotheses at the
places `H` in force. -/
inductive Follows (lines : List Line) : Set Nat → Nat → Prop
  | assumption {H : Set Nat} {i : Nat} {l : Line} (hi : lines[i]? = some l)
      (hrule : l.rule = .assumption) : Follows lines H i
  /-- A hypothesis follows while it is in force itself. -/
  | hypothesis {H : Set Nat} {i : Nat} {l : Line} (hi : lines[i]? = some l)
      (hopens : l.rule.opensBlock = true) (hforce : i ∈ H) : Follows lines H i
  | step {H : Set Nat} {i : Nat} {l : Line} (hi : lines[i]? = some l)
      (hassumed : l.rule.isAssumed = false) (hcloses : l.rule.closesBlock = false)
      (hcited : ∀ j : Nat, (j : Int) ∈ l.cites → Follows lines H j) : Follows lines H i
  /-- A conditional proof follows when its consequent does under the
  antecedent. -/
  | conditional {H : Set Nat} {i j : Nat} {l : Line} {a b : Formula} (hi : lines[i]? = some l)
      (hrule : l.rule = .conditionalProof) (hf : l.formula = .imp a b)
      (hj : CitesFormula lines l j b) (hunder : Follows lines (H ∪ discharged lines l a) j) :
      Follows lines H i
  /-- A disjunction elimination follows when the disjunction does, and the
  formula does under either side. -/
  | disjElim {H : Set Nat} {i d j₁ j₂ : Nat} {l : Line} {a b : Formula} (hi : lines[i]? = some l)
      (hrule : l.rule = .disjElim) (hd : CitesFormula lines l d (.disj a b))
      (hj₁ : CitesFormula lines l j₁ l.formula) (hj₂ : CitesFormula lines l j₂ l.formula)
      (hdisj : Follows lines H d) (hleft : Follows lines (H ∪ discharged lines l a) j₁)
      (hright : Follows lines (H ∪ discharged lines l b) j₂) : Follows lines H i

theorem Follows.mono {i : Nat} (h : Follows lines H i) (hsub : H ⊆ H') : Follows lines H' i := by
  induction h generalizing H' with
  | assumption hi hrule => exact .assumption hi hrule
  | hypothesis hi hopens hforce => exact .hypothesis hi hopens (hsub hforce)
  | step hi hassumed hcloses _ ih => exact .step hi hassumed hcloses fun j hj => ih j hj hsub
  | conditional hi hrule hf hj _ ih =>
    exact .conditional hi hrule hf hj (ih (Set.union_subset_union_left _ hsub))
  | disjElim hi hrule hd hj₁ hj₂ _ _ _ ihd ih₁ ih₂ =>
    exact .disjElim hi hrule hd hj₁ hj₂ (ihd hsub) (ih₁ (Set.union_subset_union_left _ hsub))
      (ih₂ (Set.union_subset_union_left _ hsub))

/-- A conditional proof takes the hypotheses that state its antecedent out of
force. -/
theorem Follows.conditional_without {i j : Nat} {a b : Formula} (hi : lines[i]? = some l)
    (hrule : l.rule = .conditionalProof) (hf : l.formula = .imp a b)
    (hj : CitesFormula lines l j b) (h : Follows lines H j) :
    Follows lines (H \ discharged lines l a) i :=
  .conditional hi hrule hf hj (h.mono (Set.subset_sdiff_union H _))

/-- A disjunction elimination takes the hypotheses that state a side out of force
in the branch for that side. -/
theorem Follows.disjElim_without {i d j₁ j₂ : Nat} {a b : Formula} {H₁ H₂ : Set Nat}
    (hi : lines[i]? = some l) (hrule : l.rule = .disjElim)
    (hd : CitesFormula lines l d (.disj a b)) (hj₁ : CitesFormula lines l j₁ l.formula)
    (hj₂ : CitesFormula lines l j₂ l.formula) (h : Follows lines H d)
    (h₁ : Follows lines H₁ j₁) (h₂ : Follows lines H₂ j₂) :
    Follows lines (H ∪ (H₁ \ discharged lines l a ∪ H₂ \ discharged lines l b)) i := by
  refine .disjElim hi hrule hd hj₁ hj₂ (h.mono Set.subset_union_left) (h₁.mono ?_) (h₂.mono ?_)
  · rw [Set.union_comm, ← Set.sdiff_subset_iff]
    exact fun m hm => .inr (.inl hm)
  · rw [Set.union_comm, ← Set.sdiff_subset_iff]
    exact fun m hm => .inr (.inr hm)

/-! ### What follows is true -/

/-- The valuation makes the assumptions true, and the hypotheses at the places
`H`. -/
structure Supports (lines : List Line) (H : Set Nat) (v : String → Bool) : Prop where
  assumptions : ∀ k ∈ lines, k.rule = .assumption → k.formula.holds v = true
  hypotheses : ∀ j ∈ H, ∀ k, lines[j]? = some k → k.rule.opensBlock = true →
    k.formula.holds v = true

/-- Hypotheses that state a true formula may be put in force. -/
theorem Supports.union_discharged (h : Supports lines H v) (hf : f.holds v = true) :
    Supports lines (H ∪ discharged lines l f) v := by
  refine ⟨h.assumptions, ?_⟩
  rintro j (hj | ⟨k', hk', -, rfl⟩) k hk hopens
  · exact h.hypotheses j hj k hk hopens
  · obtain rfl := Option.some.inj (hk'.symm.trans hk)
    exact hf

/-- **What follows with hypotheses in force is true wherever they are.** -/
theorem Follows.holds (hs : Sound lines) {i : Nat} (h : Follows lines H i)
    (hi : lines[i]? = some l) (hv : Supports lines H v) : l.formula.holds v = true := by
  induction h generalizing l with
  | assumption hi' hrule =>
    obtain rfl := Option.some.inj (hi'.symm.trans hi)
    exact hv.assumptions _ (List.mem_of_getElem? hi) hrule
  | hypothesis hi' hopens hforce =>
    obtain rfl := Option.some.inj (hi'.symm.trans hi)
    exact hv.hypotheses _ hforce _ hi hopens
  | step hi' hassumed _ _ ih =>
    obtain rfl := Option.some.inj (hi'.symm.trans hi)
    apply hs.holds_of_cited (List.mem_of_getElem? hi) hassumed
    intro j k hj hk
    exact ih j hj hk hv
  | conditional hi' _ hf hj _ ih =>
    obtain rfl := Option.some.inj (hi'.symm.trans hi)
    obtain ⟨-, k, hk, rfl⟩ := hj
    rw [hf]
    -- where the antecedent is true its hypotheses are in force
    exact holds_imp.mpr fun ha => ih hk (hv.union_discharged ha)
  | disjElim hi' _ hd hj₁ hj₂ _ _ _ ihd ih₁ ih₂ =>
    obtain rfl := Option.some.inj (hi'.symm.trans hi)
    obtain ⟨-, disjunction, hdisj, hf⟩ := hd
    obtain ⟨-, k₁, hk₁, hf₁⟩ := hj₁
    obtain ⟨-, k₂, hk₂, hf₂⟩ := hj₂
    have hor := ihd hdisj hv
    rw [hf] at hor
    rcases holds_disj.mp hor with ha | hb
    · rw [← hf₁]
      exact ih₁ hk₁ (hv.union_discharged ha)
    · rw [← hf₂]
      exact ih₂ hk₂ (hv.union_discharged hb)

/-! ### Every accepted line follows -/

theorem Rule.closesBlock_iff {r : Rule} :
    r.closesBlock = true ↔ r = .disjElim ∨ r = .conditionalProof := by
  cases r <;> decide

theorem Sound.citesFormula (hs : Sound lines) (hl : l ∈ lines) {n : Int} {k : Line}
    (hn : n ∈ l.cites) (hk : Line.get lines n = .ok k) :
    ∃ j : Nat, CitesFormula lines l j k.formula := by
  obtain ⟨j, rfl, hj⟩ := hs.get_cited hl hn hk
  exact ⟨j, hn, k, hj, rfl⟩

/-- A closing line discharges the hypotheses of its kind that it cites. -/
theorem Sound.mem_discharged (hs : Sound lines) (hl : l ∈ lines) {n : Int} {h : Line}
    (hn : n ∈ l.cites) (hget : Line.get lines n = .ok h) (hopener : l.rule.opener = some h.rule) :
    ∃ p : Nat, n = p ∧ p ∈ discharged lines l h.formula := by
  obtain ⟨p, rfl, hp⟩ := hs.get_cited hl hn hget
  refine ⟨p, rfl, h, hp, ?_, rfl⟩
  simp [Line.discharges, hopener, hn]

/-- A hypothesis that opens a branch of a disjunction elimination is discharged by
it. -/
theorem EndsBranches.discharged {disjunction h : Line} {i j n : Int}
    (hends : EndsBranches lines l disjunction i j) (hs : Sound lines) (hl : l ∈ lines)
    (hrule : l.rule = .disjElim) (hn : n ∈ [i, j]) (hget : Line.get lines n = .ok h) :
    ∃ p : Nat, n = p ∧ p ∈ discharged lines l h.formula := by
  obtain ⟨hcited, h', hget', htest⟩ := (mem_citedWhere_iff hends.hypotheses).mp hn
  obtain rfl := Except.ok.inj (hget.symm.trans hget')
  rw [isHypothesisOf, Bool.and_eq_true, decide_eq_true_eq] at htest
  exact hs.mem_discharged hl hcited hget (by rw [hrule, htest.1]; rfl)

/-- A disjunction elimination cites a disjunction, a hypothesis for each side that it
discharges, and the formula in both branches. -/
theorem Sound.disjElim_cites (hs : Sound lines) (hl : l ∈ lines) (hrule : l.rule = .disjElim) :
    ∃ a b d p₁ j₁ p₂ j₂, CitesFormula lines l d (.disj a b) ∧
      (p₁ ∈ discharged lines l a ∧ CitesFormula lines l j₁ l.formula ∧ p₁ ≤ j₁ ∧ j₁ < p₂) ∧
      p₂ ∈ discharged lines l b ∧ CitesFormula lines l j₂ l.formula ∧ p₂ ≤ j₂ := by
  have hstep := ((sound_iff.mp hs).2.1 l hl).2
  rw [Line.problem?, hrule] at hstep
  obtain ⟨disjunction, i, j, hends⟩ := disjElimProblem?_eq_ok_none_iff.mp hstep
  obtain ⟨n, ns, hcites, hget⟩ := hends.cited
  obtain ⟨d, hd⟩ := hs.citesFormula hl (by simp [hcites]) hget
  obtain ⟨first, second, hfirst, hsecond, hf⟩ := hends.sides
  obtain ⟨p₁, hp₁, hdischarged₁⟩ :=
    hends.discharged hs hl hrule (List.mem_pair.mpr (min_choice i j)) hfirst
  obtain ⟨p₂, hp₂, hdischarged₂⟩ :=
    hends.discharged hs hl hrule (List.mem_pair.mpr (max_choice i j)) hsecond
  obtain ⟨n₁, hn₁, hinside₁, k₁, hk₁, hf₁⟩ := exists_of_branchStates hends.first
  obtain ⟨n₂, hn₂, hinside₂, k₂, hk₂, hf₂⟩ := exists_of_branchStates hends.second
  rw [hp₁, hp₂] at hinside₁
  rw [hp₂] at hinside₂
  obtain ⟨j₁, rfl, hj₁⟩ := hs.get_cited hl hn₁ hk₁
  obtain ⟨j₂, rfl, hj₂⟩ := hs.get_cited hl hn₂ hk₂
  refine ⟨_, _, d, p₁, j₁, p₂, j₂, hf ▸ hd, ⟨hdischarged₁, ⟨hn₁, k₁, hj₁, hf₁⟩, ?_, ?_⟩,
    hdischarged₂, ⟨hn₂, k₂, hj₂, hf₂⟩, ?_⟩
  · exact Int.ofNat_le.mp hinside₁.1
  · exact Int.ofNat_lt.mp hinside₁.2
  · exact Int.ofNat_le.mp hinside₂.1

/-- A conditional proof cites its consequent, and a hypothesis that states its
antecedent and that it discharges. -/
theorem Sound.conditionalProof_cites (hs : Sound lines) (hl : l ∈ lines)
    (hrule : l.rule = .conditionalProof) :
    ∃ a b p j, l.formula = .imp a b ∧ p ∈ discharged lines l a ∧ CitesFormula lines l j b := by
  have hstep := ((sound_iff.mp hs).2.1 l hl).2
  rw [Line.problem?, hrule] at hstep
  obtain ⟨a, b, cited, hf, hcited, ⟨c, hc, hopens, hcf⟩, hstates⟩ :=
    conditionalProblem?_eq_ok_none_iff.mp hstep
  obtain ⟨m, hm, hmget⟩ := exists_of_mem_mapM hcited hc
  obtain ⟨p, -, hp⟩ := hs.mem_discharged hl hm hmget (by rw [hrule, hopens]; rfl)
  obtain ⟨k, hk, hkf⟩ := Line.states_eq_true_iff.mp hstates
  obtain ⟨n, hn, hget⟩ := exists_of_mem_mapM hcited hk
  obtain ⟨j, hj⟩ := hs.citesFormula hl hn hget
  exact ⟨a, b, p, j, hf, hcf ▸ hp, hkf ▸ hj⟩

/-- A line follows with the hypotheses in force that it rests on. -/
theorem Sound.follows (hs : Sound lines) {i : Nat} (hi : lines[i]? = some l) :
    Follows lines {j | (j : Int) ∈ l.rests} i := by
  refine hs.citation_induction (P := fun i l => Follows lines {j | (j : Int) ∈ l.rests} i) ?_ ?_ hi
  · intro i l hi hassumed
    rw [Rule.isAssumed, Bool.or_eq_true, decide_eq_true_eq] at hassumed
    rcases hassumed with hrule | hopens
    · exact .assumption hi hrule
    · refine .hypothesis hi hopens ?_
      simp [hs.rests_of_isAssumed hi (by simp [Rule.isAssumed, hopens])]
  · intro i l hi hassumed ih
    have hl := List.mem_of_getElem? hi
    -- what a cited line has in force the citing line has too
    have hcited : ∀ (j : Nat) (k : Line), (j : Int) ∈ l.cites → lines[j]? = some k →
        Follows lines {m | (m : Int) ∈ l.rests} j := by
      intro j k hj hk
      apply (ih j k hj hk).mono
      intro m hm
      exact (hs.mem_rests_iff hl hassumed).mpr ⟨j, k, hj, hk, hm⟩
    have hcites : ∀ {j f}, CitesFormula lines l j f → Follows lines {m | (m : Int) ∈ l.rests} j :=
      fun ⟨hj, k, hk, _⟩ => hcited _ k hj hk
    rcases hcloses : l.rule.closesBlock with - | -
    · refine .step hi hassumed hcloses fun j hj => ?_
      obtain ⟨hnonneg, hlt⟩ := ((sound_iff.mp hs).1 i l hi).2 j hj
      have hlt' := (List.getElem?_eq_some_iff.mp hi).1
      exact hcited j _ hj (List.getElem?_eq_getElem (by omega))
    · rcases Rule.closesBlock_iff.mp hcloses with hrule | hrule
      · obtain ⟨a, b, d, p₁, j₁, p₂, j₂, hd, ⟨-, hj₁, -⟩, -, hj₂, -⟩ := hs.disjElim_cites hl hrule
        refine (Follows.disjElim_without hi hrule hd hj₁ hj₂ (hcites hd) (hcites hj₁)
          (hcites hj₂)).mono ?_
        exact Set.union_subset subset_rfl (Set.union_subset Set.sdiff_subset Set.sdiff_subset)
      · obtain ⟨a, b, p, j, hf, -, hj⟩ := hs.conditionalProof_cites hl hrule
        exact (Follows.conditional_without hi hrule hf hj (hcites hj)).mono Set.sdiff_subset

theorem Sound.follows_cited (hs : Sound lines) {j : Nat} (hj : CitesFormula lines l j f) :
    Follows lines (groundsAt lines j) j := by
  obtain ⟨-, k, hk, -⟩ := hj
  rw [groundsAt_eq hk]
  exact hs.follows hk

/-- **A conditional proof follows without the hypotheses that it discharges.**  There
is one that states its antecedent, and of what the line for its consequent rests on
none of these need be in force. -/
theorem Sound.conditionalProof_follows (hs : Sound lines) {i : Nat} (hi : lines[i]? = some l)
    (hrule : l.rule = .conditionalProof) :
    ∃ a b p j, l.formula = .imp a b ∧ p ∈ discharged lines l a ∧ CitesFormula lines l j b ∧
      Follows lines (groundsAt lines j \ discharged lines l a) i := by
  obtain ⟨a, b, p, j, hf, hp, hj⟩ := hs.conditionalProof_cites (List.mem_of_getElem? hi) hrule
  exact ⟨a, b, p, j, hf, hp, hj, .conditional_without hi hrule hf hj (hs.follows_cited hj)⟩

/-- **A disjunction elimination follows without the hypotheses that it discharges.**
There is one for each side, with the line that states the formula in its branch
after it.  What the disjunction rests on stays in force, and of what the line in a
branch rests on all but the hypotheses that state the side of that branch. -/
theorem Sound.disjElim_follows (hs : Sound lines) {i : Nat} (hi : lines[i]? = some l)
    (hrule : l.rule = .disjElim) :
    ∃ a b d p₁ j₁ p₂ j₂, CitesFormula lines l d (.disj a b) ∧
      (p₁ ∈ discharged lines l a ∧ CitesFormula lines l j₁ l.formula ∧ p₁ ≤ j₁ ∧ j₁ < p₂) ∧
      (p₂ ∈ discharged lines l b ∧ CitesFormula lines l j₂ l.formula ∧ p₂ ≤ j₂) ∧
      Follows lines (groundsAt lines d ∪ (groundsAt lines j₁ \ discharged lines l a ∪
        groundsAt lines j₂ \ discharged lines l b)) i := by
  obtain ⟨a, b, d, p₁, j₁, p₂, j₂, hd, hfirst, hsecond⟩ :=
    hs.disjElim_cites (List.mem_of_getElem? hi) hrule
  exact ⟨a, b, d, p₁, j₁, p₂, j₂, hd, hfirst, hsecond,
    .disjElim_without hi hrule hd hfirst.2.1 hsecond.2.1 (hs.follows_cited hd)
      (hs.follows_cited hfirst.2.1) (hs.follows_cited hsecond.2.1)⟩

/-! ### Accepted goals -/

/-- **Hypotheses leak only where they are in force.**  When the check accepts a
goal without the truth table, some line states it.  Each such line follows with
the hypotheses in force that it rests on; and whenever it follows with some
hypotheses in force, the goal is true under every valuation that makes the
assumptions and these hypotheses true. -/
theorem verify_sound_in_force (lines : List Line) (goal : Formula)
    (assumptions : Option (List Formula)) (verdict : Verdict)
    (h : verify lines goal assumptions false = .ok verdict) (hverified : verdict.verified = true) :
    (∃ l ∈ lines, l.formula = goal) ∧
    ∀ (i : Nat) (l : Line), lines[i]? = some l → l.formula = goal →
      Follows lines {j | (j : Int) ∈ l.rests} i ∧
      ∀ (H : Set Nat) (v : String → Bool), Follows lines H i →
        (∀ k ∈ lines, k.rule = .assumption → k.formula.holds v = true) →
        (∀ j ∈ H, ∀ k, lines[j]? = some k → k.rule.opensBlock = true →
          k.formula.holds v = true) →
        goal.holds v = true := by
  obtain ⟨hs, hstated⟩ := verify_verified_iff.mp ⟨verdict, h, hverified⟩
  refine ⟨hstated, ?_⟩
  rintro i l hi rfl
  refine ⟨hs.follows hi, ?_⟩
  intro H v hfollows hassumptions hhypotheses
  exact hfollows.holds hs hi ⟨hassumptions, hhypotheses⟩

/-- The case analysis discharges both of its hypotheses. -/
theorem follows_caseAnalysis : Follows caseAnalysis ∅ 7 := by
  have hd : CitesFormula caseAnalysis caseAnalysisEnd 0 (.disj (.var "P") (.var "Q")) :=
    ⟨by decide, _, rfl, rfl⟩
  have hj₁ : CitesFormula caseAnalysis caseAnalysisEnd 4 (.var "W") := ⟨by decide, _, rfl, rfl⟩
  have hj₂ : CitesFormula caseAnalysis caseAnalysisEnd 6 (.var "W") := ⟨by decide, _, rfl, rfl⟩
  -- each branch draws `W` from an assumption and the hypothesis
  have hstep : ∀ {H : Set Nat} {i m n : Nat} {l : Line}, caseAnalysis[i]? = some l →
      l.rule = .modusPonens → l.cites = [(m : Int), (n : Int)] → Follows caseAnalysis H m →
      Follows caseAnalysis H n → Follows caseAnalysis H i := by
    intro H i m n l hi hrule hcites hm hn
    refine .step hi (by rw [hrule]; rfl) (by rw [hrule]; rfl) fun j hj => ?_
    obtain rfl | rfl : j = m ∨ j = n := by
      rw [hcites, List.mem_cons, List.mem_singleton] at hj
      omega
    · exact hm
    · exact hn
  refine .disjElim rfl rfl hd hj₁ hj₂ (.assumption rfl rfl) ?_ ?_
  · exact hstep rfl rfl rfl (.assumption rfl rfl)
      (.hypothesis rfl rfl (.inr ⟨_, rfl, by decide, rfl⟩))
  · exact hstep rfl rfl rfl (.assumption rfl rfl)
      (.hypothesis rfl rfl (.inr ⟨_, rfl, by decide, rfl⟩))

theorem caseAnalysis_sound_in_force :
    verify caseAnalysis (.var "W") none false = .ok (.accepted .conclusion) ∧
    Follows caseAnalysis ∅ 7 ∧
    ∀ v : String → Bool,
      (∀ k ∈ caseAnalysis, k.rule = .assumption → k.formula.holds v = true) →
      (Formula.var "W").holds v = true := by
  have hverify : verify caseAnalysis (.var "W") none false = .ok (.accepted .conclusion) := by
    decide +kernel
  refine ⟨hverify, follows_caseAnalysis, fun v hv => ?_⟩
  have h := (verify_sound_in_force caseAnalysis _ none _ hverify rfl).2 7 _ rfl rfl
  exact h.2 ∅ v follows_caseAnalysis hv (by simp)

/-- A hypothesis, the conditional proof that discharges it, and a step that
cites it once more. -/
def reusedHypothesis : List Line :=
  [⟨0, .var "P", .conditionalHypothesis, .ofList [0], []⟩,
   ⟨1, .imp (.var "P") (.var "P"), .conditionalProof, .ofList [0], [0]⟩,
   ⟨2, .var "P", .modusPonens, .ofList [0], [1, 0]⟩]

/-- The check accepts a goal that no assumption supports, although every block
is closed and the last line states the goal. -/
theorem reusedHypothesis_leaks :
    verify reusedHypothesis (.var "P") none false = .ok (.accepted .conclusion) ∧
    Line.openBlocks reusedHypothesis = [] ∧
    ∃ v : String → Bool,
      (∀ k ∈ reusedHypothesis, k.rule = .assumption → k.formula.holds v = true) ∧
      (Formula.var "P").holds v = false := by
  refine ⟨by decide +kernel, by decide +kernel, fun _ => false, ?_, rfl⟩
  decide

end NaturalDeduction
