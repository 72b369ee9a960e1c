/-
Soundness of the search.

What the search proves is true wherever the lines it started from are true.
The search and its candidates depend on each other: a block candidate is found
by nested searches, and a search ends with candidates.  One induction on the
room carries both.

* A node of a run states only what the head entails, since nodes grow by
  single steps (`OneStep.entails`); lines of a block never get into a node.
* A disjunction elimination is sound because its two branches are, from the
  node and one side of the disjunction each; a conditional proof because its
  consequent is, from the node and the antecedent (`Offers.entails`).

Main result: `search_sound`, for any lines, any goal and any settings.
-/
import NaturalDeduction.Attempt.Basic
import NaturalDeduction.Proofs.Formula.Entailment
import NaturalDeduction.Proofs.Search.Nodes

namespace NaturalDeduction

open Formula

/-! ### Single steps -/

theorem OneStep.entails {fs : List Formula} {goal f : Formula} (h : OneStep fs goal f) :
    Entails fs f := by
  intro v hv
  cases h with
  | modusPonens hab ha => simpa [holds, hv _ ha] using hv _ hab
  | modusTollens hab hb =>
    have hb' := hv _ hb
    have hab' := hv _ hab
    simp only [holds, Bool.not_eq_true'] at hb'
    simpa [holds, hb'] using hab'
  | conjLeft hab =>
    have hab' := hv _ hab
    simp only [holds, Bool.and_eq_true] at hab'
    exact hab'.1
  | conjRight hab =>
    have hab' := hv _ hab
    simp only [holds, Bool.and_eq_true] at hab'
    exact hab'.2
  | conjIntro ha hb => simp [holds, hv _ ha, hv _ hb]
  | disjIntro ha _ => simp [holds, hv _ ha]
  | disjLeft ha _ => simp [holds, hv _ ha]
  | disjRight ha _ => simp [holds, hv _ ha]
  | negElim ha => simpa [holds] using hv _ ha
  | negIntro ha => simpa [holds] using hv _ ha

/-! ### Candidates -/

namespace Node

/-- A search is sound at a node when it proves only what the node entails. -/
def SoundAt (search : Node → Run) (n : Node) : Prop :=
  ∀ out, (search n).ending = .proved out → Entails (formulas n.lines) n.goal

theorem entails_of_assuming {fs : List Formula} {a f : Formula}
    (h : Entails (fs ++ [a]) f) {v : String → Bool} (hv : ∀ g ∈ fs, g.holds v = true)
    (ha : a.holds v = true) : f.holds v = true := by
  apply h v
  intro g hg
  rcases List.mem_append.mp hg with hg | hg
  · exact hv g hg
  · obtain rfl : g = a := by simpa using hg
    exact ha

/-- What comes up at a node is entailed by it, if the nested searches are
sound. -/
theorem Offers.entails {search : Node → Run} {n : Node} {e : Extension}
    (hsearch : ∀ hypothesis goal, SoundAt search (n.assuming hypothesis goal))
    (h : n.Offers search e) : Entails (formulas n.lines) e.last.formula := by
  cases h with
  | single hl => exact hl.oneStep.entails
  | @disjElim l a b out₁ out₂ hl hf _ _ h₁ h₂ =>
    have hbranch₁ := hsearch _ _ out₁ h₁
    have hbranch₂ := hsearch _ _ out₂ h₂
    simp only [assuming, formulas_append] at hbranch₁ hbranch₂
    intro v hv
    have hdisj := hv _ (mem_formulas.mpr ⟨l, hl, hf⟩)
    simp only [holds, Bool.or_eq_true] at hdisj
    rcases hdisj with ha | hb
    · exact entails_of_assuming hbranch₁ hv ha
    · exact entails_of_assuming hbranch₂ hv hb
  | @conditional a b out _ hgoal _ _ hout he =>
    obtain ⟨earlier, -, rfl⟩ := conditionalBlock_eq_ok_iff.mp he
    have hbranch := hsearch _ _ out hout
    simp only [assuming, formulas_append] at hbranch
    intro v hv
    -- where the antecedent is false there is nothing to show
    simp only [hgoal, holds, Bool.or_eq_true, Bool.not_eq_true']
    rcases ha : a.holds v with - | -
    · exact .inl rfl
    · exact .inr (entails_of_assuming hbranch hv ha)

/-! ### Runs -/

theorem keeps_entailed (head : Node) :
    head.Keeps fun lines => ∀ f ∈ formulas lines, Entails (formulas head.lines) f := by
  intro lines l _ hlines hl _ _ f hf
  rw [formulas_append] at hf
  rcases List.mem_append.mp hf with hf | hf
  · exact hlines f hf
  · obtain rfl : f = l.formula := by simpa [formulas] using hf
    exact hl.oneStep.entails.trans hlines

theorem soundAt_search (head : Node) : SoundAt Node.search head := by
  induction head using search_induction with
  | step head ih =>
    intro out hout
    rcases search_proved head.keeps_entailed (fun f hf => .of_mem hf) hout with
      ⟨-, hentailed, hgoal⟩ | ⟨lines, found, e, hlines, hentailed, hfound, he, rfl⟩
    · exact hentailed _ hgoal
    · obtain ⟨hoffers, hlast⟩ := offers_of_find?_eq_some hfound he
      show Entails _ head.goal
      rw [← hlast]
      apply Entails.trans hentailed
      exact hoffers.entails fun hypothesis goal =>
        ih lines hypothesis goal hlines.length_le hlines.short

end Node

/-- The formulas of the lines that a proof from assumptions starts with. -/
theorem Node.formulas_ofAssumptions (fs : List Formula) :
    formulas (Line.ofAssumptions fs) = fs := by
  simp [formulas, Line.ofAssumptions, Line.ofAssumption, List.mapIdx_eq_zipIdx_map,
    Function.comp_def]

/-- **Soundness.**  What a search proves from a node is true wherever the lines
of the node are; so is what any candidate of a node states at its end; and an
attempt that succeeds passes the truth table. -/
theorem search_sound :
    (∀ (head : Node) (out : List Line), head.search.ending = .proved out →
      ∀ v, (∀ l ∈ head.lines, l.formula.holds v = true) → head.goal.holds v = true) ∧
    (∀ (n : Node) (found : Found), n.candidates Node.search = .ok found →
      ∀ e ∈ found.candidates,
        ∀ v, (∀ l ∈ n.lines, l.formula.holds v = true) → e.last.formula.holds v = true) ∧
    (∀ (assumptions : List Formula) (goal : Formula) (settings : Settings) (out : List Line),
      (Attempt.start assumptions goal settings).search.1.ending = .proved out →
        Formula.entails assumptions goal = .ok true) := by
  refine ⟨?_, ?_, ?_⟩
  · intro head out hout v hv
    apply head.soundAt_search out hout v
    intro f hf
    obtain ⟨l, hl, rfl⟩ := Node.mem_formulas.mp hf
    exact hv l hl
  · intro n found hfound e he v hv
    have hoffers := ((Node.mem_candidates_iff hfound).mp he).1
    apply hoffers.entails (fun hypothesis goal => Node.soundAt_search _) v
    intro f hf
    obtain ⟨l, hl, rfl⟩ := Node.mem_formulas.mp hf
    exact hv l hl
  · intro assumptions goal settings out hout
    have hentails := (Attempt.start assumptions goal settings).node.soundAt_search out hout
    rw [Attempt.start, Attempt.node, Node.formulas_ofAssumptions] at hentails
    obtain ⟨b, hb, hiff⟩ := Formula.entails_eq_ok assumptions goal
    rw [hb, hiff.mpr hentails]

/-- A disjunction and the goal to turn it round, which takes a disjunction
elimination. -/
def turnedDisjunction : Node :=
  ⟨Line.ofAssumptions [.disj (.var "P") (.var "Q")], .disj (.var "Q") (.var "P"), default⟩

theorem turnedDisjunction_sound :
    ∃ out found e,
      turnedDisjunction.search.ending = .proved out ∧
      turnedDisjunction.candidates Node.search = .ok found ∧
      e ∈ found.candidates ∧ e.last.rule = .disjElim ∧
      (∀ v, (Formula.disj (.var "P") (.var "Q")).holds v = true →
        turnedDisjunction.goal.holds v = true ∧ e.last.formula.holds v = true) ∧
      Formula.entails [.disj (.var "P") (.var "Q")] (.disj (.var "Q") (.var "P")) = .ok true := by
  have hfinished : turnedDisjunction.search.status = .finished := by decide +kernel
  obtain ⟨out, hout⟩ := Run.exists_proved hfinished
  have hblock : (turnedDisjunction.candidates Node.search).toOption.any
      (fun found => found.candidates.any fun e => e.last.rule = .disjElim) = true := by
    decide +kernel
  rcases hfound : turnedDisjunction.candidates Node.search with fault | found
  · simp [hfound, Except.toOption] at hblock
  · rw [hfound] at hblock
    obtain ⟨e, he, hrule⟩ : ∃ e ∈ found.candidates, e.last.rule = .disjElim := by
      simpa [Except.toOption] using hblock
    refine ⟨out, found, e, hout, rfl, he, hrule, ?_, search_sound.2.2 _ _ _ out hout⟩
    intro v hv
    have hlines : ∀ l ∈ turnedDisjunction.lines, l.formula.holds v = true := by
      simpa [turnedDisjunction, Line.ofAssumptions, Line.ofAssumption] using hv
    exact ⟨search_sound.1 _ out hout v hlines, search_sound.2.1 _ found hfound e he v hlines⟩

end NaturalDeduction
