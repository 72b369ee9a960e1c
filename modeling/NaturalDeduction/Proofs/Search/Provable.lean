/-
What can be proved within bounds on lines.

`Provable b goal fs` describes derivations of `goal` from the formulas `fs` that
a search with unlimited expansions can find: they add formulas one at a time
while there are at most `b.lines` of them, and end with a block whose branches
are derivations under the bounds of nested searches.  Lines, numbers and the
order of the formulas play no part (`Provable.perm`).

`Closes b goal fs` says that such a derivation ends at `fs` without a further
single step; it is to formulas what `Finishes` is to nodes.

A search finds only what is provable, whatever its budget of expansions
(`provableAt_search`).
-/
import NaturalDeduction.Proofs.Search.Blocks
import NaturalDeduction.Proofs.Search.Finish

namespace NaturalDeduction

/-! ### Derivations within bounds -/

/-- What bounds a search, its budget of expansions apart. -/
structure Bounds where
  /-- The most lines a node may have to be expanded. -/
  lines : Nat
  /-- The bound on lines for nested searches. -/
  sub : Nat
  /-- Whether a block for a disjunction elimination is open. -/
  disjOpen : Bool
  /-- Whether a block for a conditional proof is open. -/
  condOpen : Bool

namespace Bounds

/-- The bounds inside a branch of a disjunction elimination. -/
def inDisj (b : Bounds) : Bounds :=
  ⟨min b.sub b.lines, min b.sub b.lines, true, b.condOpen⟩

/-- The bounds under the hypothesis of a conditional proof. -/
def inCond (b : Bounds) : Bounds :=
  ⟨min b.sub b.lines, min b.sub b.lines, b.disjOpen, true⟩

end Bounds

/-- The goal can be derived from the formulas within bounds. -/
inductive Provable : Bounds → Formula → List Formula → Prop
  | stated {b goal fs} (h : goal ∈ fs) : Provable b goal fs
  | step {b goal fs f} (hlen : fs.length ≤ b.lines) (hf : OneStep fs goal f) (hnew : f ∉ fs)
      (h : Provable b goal (fs ++ [f])) : Provable b goal fs
  | disjElim {b goal fs x y} (hlen : fs.length ≤ b.lines) (hopen : b.disjOpen = false)
      (hmem : .disj x y ∈ fs) (h₁ : Provable b.inDisj goal (fs ++ [x]))
      (h₂ : Provable b.inDisj goal (fs ++ [y])) : Provable b goal fs
  | conditional {b fs x y} (hlen : fs.length ≤ b.lines) (hopen : b.condOpen = false)
      (h : Provable b.inCond y (fs ++ [x])) : Provable b (.imp x y) fs

/-- A derivation of the goal needs no further single step before its last
rule. -/
inductive Closes (b : Bounds) (goal : Formula) (fs : List Formula) : Prop
  | single (h : OneStep fs goal goal)
  | disjElim {x y : Formula} (hopen : b.disjOpen = false) (hmem : .disj x y ∈ fs)
      (h₁ : Provable b.inDisj goal (fs ++ [x])) (h₂ : Provable b.inDisj goal (fs ++ [y]))
  | conditional {x y : Formula} (hgoal : goal = .imp x y) (hopen : b.condOpen = false)
      (h : Provable b.inCond y (fs ++ [x]))

theorem Provable.perm {b : Bounds} {goal : Formula} {fs gs : List Formula}
    (h : Provable b goal fs) (hperm : fs.Perm gs) : Provable b goal gs := by
  induction h generalizing gs with
  | stated h => exact .stated (hperm.mem_iff.mp h)
  | step hlen hf hnew _ ih =>
    refine .step ?_ (hf.mono fun f hf => hperm.mem_iff.mp hf) ?_ (ih (hperm.append_right _))
    · rwa [← hperm.length_eq]
    · rwa [← hperm.mem_iff]
  | disjElim hlen hopen hmem _ _ ih₁ ih₂ =>
    refine .disjElim ?_ hopen (hperm.mem_iff.mp hmem) (ih₁ (hperm.append_right _))
      (ih₂ (hperm.append_right _))
    rwa [← hperm.length_eq]
  | conditional hlen hopen _ ih =>
    refine .conditional ?_ hopen (ih (hperm.append_right _))
    rwa [← hperm.length_eq]

theorem Closes.perm {b : Bounds} {goal : Formula} {fs gs : List Formula} (h : Closes b goal fs)
    (hperm : fs.Perm gs) : Closes b goal gs := by
  cases h with
  | single h => exact .single (h.mono fun f hf => hperm.mem_iff.mp hf)
  | disjElim hopen hmem h₁ h₂ =>
    exact .disjElim hopen (hperm.mem_iff.mp hmem) (h₁.perm (hperm.append_right _))
      (h₂.perm (hperm.append_right _))
  | conditional hgoal hopen h => exact .conditional hgoal hopen (h.perm (hperm.append_right _))

theorem Closes.provable {b : Bounds} {goal : Formula} {fs : List Formula} (h : Closes b goal fs)
    (hlen : fs.length ≤ b.lines) : Provable b goal fs := by
  by_cases hgoal : goal ∈ fs
  · exact .stated hgoal
  · cases h with
    | single h => exact .step hlen h hgoal (.stated (by simp))
    | disjElim hopen hmem h₁ h₂ => exact .disjElim hlen hopen hmem h₁ h₂
    | conditional himp hopen h =>
      subst himp
      exact .conditional hlen hopen h

/-! ### The bounds at a node -/

/-- Lines that are numbered by their places and close no block that is still to
come. -/
structure Line.Regular (lines : List Line) : Prop where
  numbered : Line.WellNumbered lines
  settled : Line.Settled lines

namespace Line.Regular

variable {lines : List Line} {l : Line}

theorem append_singleton (h : Regular lines) (hnumber : l.number = lines.length)
    (hcloses : l.rule.closesBlock = false) : Regular (lines ++ [l]) :=
  ⟨wellNumbered_append_singleton.mpr ⟨h.numbered, hnumber⟩, h.settled.append_singleton hcloses⟩

theorem step {goal : Formula} (h : Regular lines) (hl : IsStep lines goal l) :
    Regular (lines ++ [l]) :=
  h.append_singleton hl.number_eq hl.opensBlock_closesBlock.2

theorem ofAssumptions (fs : List Formula) : Regular (Line.ofAssumptions fs) := by
  refine ⟨wellNumbered_ofAssumptions fs, fun l hl hcloses => ?_⟩
  obtain ⟨i, f, rfl⟩ := mem_ofAssumptions hl
  cases hcloses

end Line.Regular

namespace Bounds

variable {m k : Nat} {lines : List Line} {l : Line}

/-- The bounds of a search from lines, with bounds `m` and `k` on the lines of
its nodes and of nested ones. -/
def of (m k : Nat) (lines : List Line) : Bounds where
  lines := m
  sub := k
  disjOpen := Line.hasOpenBlock lines .disjHypothesis
  condOpen := Line.hasOpenBlock lines .conditionalHypothesis

theorem of_step {goal : Formula} (hl : IsStep lines goal l) :
    of m k (lines ++ [l]) = of m k lines := by
  rw [of, of, Line.hasOpenBlock_append (hl.quiet rfl), Line.hasOpenBlock_append (hl.quiet rfl)]

theorem of_disjHypothesis (h : Line.Settled lines) (hl : l.rule = .disjHypothesis) :
    of (min k m) (min k m) (lines ++ [l]) = (of m k lines).inDisj := by
  have hopens : l.rule.opensBlock = true := by rw [hl]; rfl
  have hopen := Line.hasOpenBlock_append_hypothesis h hopens
  have hquiet : Line.Quiet .conditionalHypothesis [l] :=
    Node.quiet_hypothesis hopens (by simp [hl])
  rw [hl] at hopen
  rw [of, hopen, Line.hasOpenBlock_append hquiet]
  rfl

theorem of_conditionalHypothesis (h : Line.Settled lines) (hl : l.rule = .conditionalHypothesis) :
    of (min k m) (min k m) (lines ++ [l]) = (of m k lines).inCond := by
  have hopens : l.rule.opensBlock = true := by rw [hl]; rfl
  have hopen := Line.hasOpenBlock_append_hypothesis h hopens
  have hquiet : Line.Quiet .disjHypothesis [l] := Node.quiet_hypothesis hopens (by simp [hl])
  rw [hl] at hopen
  rw [of, hopen, Line.hasOpenBlock_append hquiet]
  rfl

end Bounds

namespace Node

variable {search : Node → Run} {n : Node}

/-- The bounds of the search from a node. -/
def bounds (n : Node) : Bounds :=
  .of n.settings.maxLines n.settings.subMaxLines n.lines

theorem bounds_disjHypothesis (h : Line.Settled n.lines) (l : Line) (side goal : Formula) :
    (n.assuming (n.disjHypothesis l side) goal).bounds = n.bounds.inDisj :=
  Bounds.of_disjHypothesis h rfl

theorem bounds_conditionalHypothesis (h : Line.Settled n.lines) (side goal : Formula) :
    (n.assuming (n.conditionalHypothesis side) goal).bounds = n.bounds.inCond :=
  Bounds.of_conditionalHypothesis h rfl

theorem formulas_append_singleton (lines : List Line) (l : Line) :
    formulas (lines ++ [l]) = formulas lines ++ [l.formula] := by
  rw [formulas_append]
  rfl

theorem formulas_assuming (hypothesis : Line) (goal : Formula) :
    formulas (n.assuming hypothesis goal).lines = formulas n.lines ++ [hypothesis.formula] :=
  formulas_append_singleton n.lines hypothesis

theorem length_formulas (lines : List Line) : (formulas lines).length = lines.length :=
  List.length_map _

/-! ### What a search finds is provable -/

/-- What the search proves from a node is provable. -/
def ProvableAt (search : Node → Run) (n : Node) : Prop :=
  Proves search n → Provable n.bounds n.goal (formulas n.lines)

theorem Finishes.closes (hregular : Line.Regular n.lines)
    (hnested : ∀ (hypothesis : Line) (goal : Formula), hypothesis.number = n.lines.length →
      hypothesis.rule.closesBlock = false → ProvableAt search (n.assuming hypothesis goal))
    (h : n.Finishes search) : Closes n.bounds n.goal (formulas n.lines) := by
  cases h with
  | single h => exact .single h
  | @disjElim l a b hl hf hclosed h₁ h₂ =>
    have hfirst := hnested (n.disjHypothesis l a) n.goal rfl rfl h₁
    have hsecond := hnested (n.disjHypothesis l b) n.goal rfl rfl h₂
    rw [bounds_disjHypothesis hregular.settled, formulas_assuming] at hfirst hsecond
    exact .disjElim hclosed (mem_formulas.mpr ⟨l, hl, hf⟩) hfirst hsecond
  | @conditional a b hgoal hclosed h =>
    have hbranch := hnested (n.conditionalHypothesis a) b rfl rfl h
    rw [bounds_conditionalHypothesis hregular.settled, formulas_assuming] at hbranch
    exact .conditional hgoal hclosed hbranch

theorem provableAt_search (head : Node) (hregular : Line.Regular head.lines) :
    ProvableAt Node.search head := by
  induction head using search_induction with
  | step head ih =>
    rintro ⟨out, hout⟩
    -- nodes are regular, and what is provable from them is provable from the head
    have hkeeps : head.Keeps fun lines => Line.Regular lines ∧
        bounds ⟨lines, head.goal, head.settings⟩ = head.bounds ∧
        (Provable head.bounds head.goal (formulas lines) →
          Provable head.bounds head.goal (formulas head.lines)) := by
      intro lines l hlines hP hl hnew _
      refine ⟨hP.1.step hl, (Bounds.of_step hl).trans hP.2.1, fun h => hP.2.2 ?_⟩
      rw [formulas_append_singleton] at h
      refine .step ?_ hl.oneStep hnew h
      rw [length_formulas]
      exact hlines.short
    rcases search_proved hkeeps ⟨hregular, rfl, id⟩ hout with
      ⟨-, ⟨-, -, hback⟩, hgoal⟩ |
      ⟨lines, found, e, hlines, ⟨hregular', hbounds, hback⟩, hfound, he, -⟩
    · exact hback (.stated hgoal)
    · apply hback
      have hcloses := (finishes_of_find?_eq_some hfound he).closes hregular'
        fun hypothesis goal hnumber hcloses =>
          ih lines hypothesis goal hlines.length_le hlines.short
            (hregular'.append_singleton hnumber hcloses)
      rw [hbounds] at hcloses
      apply hcloses.provable
      rw [length_formulas]
      exact hlines.short

end Node

end NaturalDeduction
