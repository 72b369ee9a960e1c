/-
How nested searches end.

A node takes nothing from its nested searches but how they end: with which
proof, or without one.  So two nodes with the same lines and the same goal,
whatever their settings, have the same candidates if their nested searches end
in the same way (`candidates_eq_of_sameEnding`).  Counters and traces may
differ.
-/
import NaturalDeduction.Proofs.Search.Candidates

namespace NaturalDeduction

namespace Node

variable {n : Node} {s' : Settings} {search : Node → Run}

/-- Under a hypothesis the searches from a node and from the same lines with
other settings end in the same way. -/
def SameEnding (search : Node → Run) (n : Node) (s' : Settings) (hypothesis : Line)
    (goal : Formula) : Prop :=
  (search (n.assuming hypothesis goal)).ending
    = (search (assuming ⟨n.lines, n.goal, s'⟩ hypothesis goal)).ending

theorem branch_fst_eq {hypothesis : Line} {goal : Formula}
    {r r' : Option (List Line) × Array Event} (h : SameEnding search n s' hypothesis goal)
    (hr : n.branch search hypothesis goal = .ok r)
    (hr' : branch search ⟨n.lines, n.goal, s'⟩ hypothesis goal = .ok r') : r.1 = r'.1 := by
  rw [branch] at hr hr'
  rw [SameEnding] at h
  rcases hend : (search (n.assuming hypothesis goal)).ending with out | why | fault
  · simp only [hend, ← h, Except.ok.injEq] at hr hr'
    rw [← hr, ← hr']
  · simp only [hend, ← h, Except.ok.injEq] at hr hr'
    rw [← hr, ← hr']
  · simp only [hend] at hr
    cases hr

theorem disjElimOn_candidates {l : Line} {found found' : Found}
    (h : ∀ a b, l.formula = .disj a b → ∀ side ∈ [a, b],
      SameEnding search n s' (n.disjHypothesis l side) n.goal)
    (hfound : n.disjElimOn search l = .ok found)
    (hfound' : disjElimOn search ⟨n.lines, n.goal, s'⟩ l = .ok found') :
    found.candidates = found'.candidates := by
  rw [disjElimOn] at hfound hfound'
  split at hfound
  · next a b hf =>
    simp only [hf] at hfound'
    obtain ⟨⟨first?, trace₁⟩, h₁, hfound⟩ := bind_eq_ok_iff.mp hfound
    obtain ⟨⟨first?', trace₁'⟩, h₁', hfound'⟩ := bind_eq_ok_iff.mp hfound'
    obtain rfl : first? = first?' := branch_fst_eq (h a b hf a (by simp)) h₁ h₁'
    rcases first? with - | first
    · rw [pure_eq_ok_iff.mp hfound, pure_eq_ok_iff.mp hfound']
    · obtain ⟨⟨second?, trace₂⟩, h₂, hfound⟩ := bind_eq_ok_iff.mp hfound
      obtain ⟨⟨second?', trace₂'⟩, h₂', hfound'⟩ := bind_eq_ok_iff.mp hfound'
      obtain rfl : second? = second?' := branch_fst_eq (h a b hf b (by simp)) h₂ h₂'
      rcases second? with - | second
      · rw [pure_eq_ok_iff.mp hfound, pure_eq_ok_iff.mp hfound']
      · rw [pure_eq_ok_iff.mp hfound, pure_eq_ok_iff.mp hfound']
        rfl
  · next hf =>
    split at hfound'
    · next a b hf' => exact absurd hf' (hf a b)
    · rw [pure_eq_ok_iff.mp hfound, pure_eq_ok_iff.mp hfound']

theorem disjElimsOn_candidates {lines : List Line} {found found' : Found}
    (h : ∀ l ∈ lines, ∀ a b, l.formula = .disj a b → ∀ side ∈ [a, b],
      SameEnding search n s' (n.disjHypothesis l side) n.goal)
    (hfound : n.disjElimsOn search lines = .ok found)
    (hfound' : disjElimsOn search ⟨n.lines, n.goal, s'⟩ lines = .ok found') :
    found.candidates = found'.candidates := by
  induction lines generalizing found found' with
  | nil => rw [pure_eq_ok_iff.mp hfound, pure_eq_ok_iff.mp hfound']
  | cons l rest ih =>
    rw [disjElimsOn] at hfound hfound'
    obtain ⟨first, h₁, hfound⟩ := bind_eq_ok_iff.mp hfound
    obtain ⟨others, h₂, hfound⟩ := bind_eq_ok_iff.mp hfound
    obtain ⟨first', h₁', hfound'⟩ := bind_eq_ok_iff.mp hfound'
    obtain ⟨others', h₂', hfound'⟩ := bind_eq_ok_iff.mp hfound'
    rw [pure_eq_ok_iff.mp hfound, pure_eq_ok_iff.mp hfound', Found.append, Found.append,
      disjElimOn_candidates (h l List.mem_cons_self) h₁ h₁',
      ih (fun k hk => h k (List.mem_cons_of_mem l hk)) h₂ h₂']

theorem conditionalProofs_candidates {found found' : Found}
    (h : ∀ a b, n.goal = .imp a b → SameEnding search n s' (n.conditionalHypothesis a) b)
    (hfound : n.conditionalProofs search = .ok found)
    (hfound' : conditionalProofs search ⟨n.lines, n.goal, s'⟩ = .ok found') :
    found.candidates = found'.candidates := by
  obtain ⟨lines, goal, s⟩ := n
  rw [conditionalProofs] at hfound hfound'
  split at hfound
  · next a b hgoal =>
    obtain rfl : goal = .imp a b := hgoal
    by_cases hguard : isComplete ⟨lines, .imp a b, s⟩
        || Line.hasOpenBlock lines .conditionalHypothesis
    · -- the guard does not look at the settings
      have hguard' : isComplete ⟨lines, .imp a b, s'⟩
          || Line.hasOpenBlock lines .conditionalHypothesis := hguard
      simp only [hguard, if_true] at hfound
      simp only [hguard', if_true] at hfound'
      rw [pure_eq_ok_iff.mp hfound, pure_eq_ok_iff.mp hfound']
    · have hguard' : ¬ (isComplete ⟨lines, .imp a b, s'⟩
          || Line.hasOpenBlock lines .conditionalHypothesis) = true := hguard
      simp only [hguard, if_false, Bool.false_eq_true] at hfound
      simp only [hguard', if_false, Bool.false_eq_true] at hfound'
      obtain ⟨⟨lead?, trace⟩, hlead, hfound⟩ := bind_eq_ok_iff.mp hfound
      obtain ⟨⟨lead?', trace'⟩, hlead', hfound'⟩ := bind_eq_ok_iff.mp hfound'
      obtain rfl : lead? = lead?' := branch_fst_eq (h a b rfl) hlead hlead'
      rcases lead? with - | lead
      · rw [pure_eq_ok_iff.mp hfound, pure_eq_ok_iff.mp hfound']
      · obtain ⟨e, he, hfound⟩ := bind_eq_ok_iff.mp hfound
        obtain ⟨e', he', hfound'⟩ := bind_eq_ok_iff.mp hfound'
        obtain rfl : e = e' := Except.ok.inj (he.symm.trans he')
        rw [pure_eq_ok_iff.mp hfound, pure_eq_ok_iff.mp hfound']
  · next hgoal =>
    split at hfound'
    · next a b hgoal' => exact absurd hgoal' (hgoal a b)
    · rw [pure_eq_ok_iff.mp hfound, pure_eq_ok_iff.mp hfound']

/-- **Nested searches that end in the same way give the same candidates.** -/
theorem candidates_eq_of_sameEnding {found found' : Found}
    (hdisj : ∀ l ∈ n.lines, ∀ a b, l.formula = .disj a b → ∀ side ∈ [a, b],
      SameEnding search n s' (n.disjHypothesis l side) n.goal)
    (hcond : ∀ a b, n.goal = .imp a b → SameEnding search n s' (n.conditionalHypothesis a) b)
    (hfound : n.candidates search = .ok found)
    (hfound' : candidates search ⟨n.lines, n.goal, s'⟩ = .ok found') :
    found.candidates = found'.candidates := by
  obtain ⟨singles, elims, proofs, hsingles, helims, hproofs, rfl⟩ :=
    candidates_eq_ok_iff.mp hfound
  obtain ⟨singles', elims', proofs', hsingles', helims', hproofs', rfl⟩ :=
    candidates_eq_ok_iff.mp hfound'
  obtain rfl : singles = singles' := Except.ok.inj (hsingles.symm.trans hsingles')
  have helims_eq : elims.candidates = elims'.candidates := by
    rw [disjElims] at helims helims'
    by_cases hguard : n.isComplete || Line.hasOpenBlock n.lines .disjHypothesis
    · have hguard' : isComplete ⟨n.lines, n.goal, s'⟩
          || Line.hasOpenBlock n.lines .disjHypothesis := hguard
      rw [if_pos hguard] at helims
      rw [if_pos hguard'] at helims'
      rw [pure_eq_ok_iff.mp helims, pure_eq_ok_iff.mp helims']
    · have hguard' : ¬ (isComplete ⟨n.lines, n.goal, s'⟩
          || Line.hasOpenBlock n.lines .disjHypothesis) = true := hguard
      rw [if_neg hguard] at helims
      rw [if_neg hguard'] at helims'
      exact disjElimsOn_candidates hdisj helims helims'
  have hproofs_eq := conditionalProofs_candidates hcond hproofs hproofs'
  simp only [Found.append, helims_eq, hproofs_eq]
  rfl

end Node

end NaturalDeduction
