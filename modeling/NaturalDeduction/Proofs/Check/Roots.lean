/-
The roots of a line.

A line names the assumptions and hypotheses that it rests on, and the check
compares this set with the sets of the lines it cites, one step back.  What the
set means is a matter of all steps: its members are the roots of the line, the
assumptions and hypotheses that one comes to by going from line to cited line
(`Line.IsRoot`).  The way ends at a root.  In particular the hypothesis of a
disjunction elimination cites the disjunction and does not rest on its roots.

Main result: `rests_eq_roots`.
-/
import Mathlib.Logic.Relation
import NaturalDeduction.Proofs.Check.Entailment

namespace NaturalDeduction

namespace Line

variable {lines : List Line} {l : Line} {i r : Nat}

/-! ### Going from line to cited line -/

/-- The line at `i` is drawn from others, and it cites the line at `j`. -/
def DrawnFrom (lines : List Line) (i j : Nat) : Prop :=
  ∃ l, lines[i]? = some l ∧ l.rule.isAssumed = false ∧ (j : Int) ∈ l.cites

/-- The line at `r` is an assumption or a hypothesis that one comes to from the
line at `i`. -/
def IsRoot (lines : List Line) (i r : Nat) : Prop :=
  Relation.ReflTransGen (DrawnFrom lines) i r ∧
    ∃ k, lines[r]? = some k ∧ k.rule.isAssumed = true

/-- From an assumption or a hypothesis there is no way on. -/
theorem isRoot_of_isAssumed (hi : lines[i]? = some l) (hassumed : l.rule.isAssumed = true) :
    IsRoot lines i r ↔ r = i := by
  constructor
  · rintro ⟨hreach, -⟩
    rcases hreach.cases_head with rfl | ⟨j, ⟨k, hk, hdrawn, -⟩, -⟩
    · rfl
    · obtain rfl := Option.some.inj (hi.symm.trans hk)
      rw [hassumed] at hdrawn
      cases hdrawn
  · rintro rfl
    exact ⟨.refl, l, hi, hassumed⟩

/-- From a line that is drawn from others the way leads on to one of these. -/
theorem isRoot_of_drawn (hi : lines[i]? = some l) (hdrawn : l.rule.isAssumed = false) :
    IsRoot lines i r ↔ ∃ j : Nat, (j : Int) ∈ l.cites ∧ IsRoot lines j r := by
  constructor
  · rintro ⟨hreach, k, hk, hassumed⟩
    rcases hreach.cases_head with rfl | ⟨j, ⟨l', hl', -, hj⟩, hreach⟩
    · obtain rfl := Option.some.inj (hi.symm.trans hk)
      rw [hdrawn] at hassumed
      cases hassumed
    · obtain rfl := Option.some.inj (hi.symm.trans hl')
      exact ⟨j, hj, hreach, k, hk, hassumed⟩
  · rintro ⟨j, hj, hreach, hroot⟩
    exact ⟨.head ⟨l, hi, hdrawn, hj⟩ hreach, hroot⟩

theorem IsRoot.lt_length (h : IsRoot lines i r) : r < lines.length := by
  obtain ⟨-, k, hk, -⟩ := h
  exact (List.getElem?_eq_some_iff.mp hk).1

end Line

open Line

variable {lines : List Line} {l : Line}

/-! ### What a line rests on -/

/-- In a sound sequence the members of the set are the roots.  The induction is
along citations: each step hands on the roots of the cited lines, and no others. -/
theorem Sound.mem_rests_iff_isRoot (hs : Sound lines) {i : Nat} (hi : lines[i]? = some l) :
    ∀ n : Int, n ∈ l.rests ↔ ∃ r : Nat, n = r ∧ IsRoot lines i r := by
  refine hs.citation_induction
    (P := fun i l => ∀ n : Int, n ∈ l.rests ↔ ∃ r : Nat, n = r ∧ IsRoot lines i r) ?_ ?_ hi
  · intro i l hi hassumed n
    simp only [hs.rests_of_isAssumed hi hassumed, IndexSet.mem_singleton,
      isRoot_of_isAssumed hi hassumed, exists_eq_right]
  · intro i l hi hdrawn ih n
    rw [hs.mem_rests_iff (List.mem_of_getElem? hi) hdrawn]
    simp only [isRoot_of_drawn hi hdrawn]
    constructor
    · rintro ⟨j, k, hj, hk, hn⟩
      obtain ⟨r, rfl, hroot⟩ := (ih j k hj hk n).mp hn
      exact ⟨r, rfl, j, hj, hroot⟩
    · rintro ⟨r, rfl, j, hj, hroot⟩
      -- a line that is cited is there
      obtain ⟨-, hlt⟩ := ((sound_iff.mp hs).1 i l hi).2 j hj
      have hj' : j < lines.length := by
        have := (List.getElem?_eq_some_iff.mp hi).1
        omega
      have hk := List.getElem?_eq_getElem hj'
      exact ⟨j, _, hj, hk, (ih j _ hj hk r).mpr ⟨r, rfl, hroot⟩⟩

open Classical in
/-- **A line rests on its roots.**  In a sequence in which the check finds nothing
wrong with the lines, what a line rests on is the list of its roots in increasing
order: of the assumptions and hypotheses that one comes to from it by going from
line to cited line. -/
theorem rests_eq_roots (lines : List Line) (hs : Sound lines) (i : Nat) (l : Line)
    (hi : lines[i]? = some l) :
    l.rests.toList = ((List.range lines.length).filter fun r => IsRoot lines i r).map Nat.cast := by
  apply Increasing.ext_of_mem l.rests.increasing
  · rw [List.pairwise_map]
    exact (List.pairwise_lt_range.filter _).imp Int.ofNat_lt.mpr
  · intro n
    rw [← IndexSet.mem_def, hs.mem_rests_iff_isRoot hi]
    simp only [List.mem_map, List.mem_filter, List.mem_range, decide_eq_true_eq]
    constructor
    · rintro ⟨r, rfl, hroot⟩
      exact ⟨r, ⟨hroot.lt_length, hroot⟩, rfl⟩
    · rintro ⟨r, ⟨-, hroot⟩, rfl⟩
      exact ⟨r, rfl, hroot⟩

open Classical in
/-- In the first branch of the case analysis the line drawn from the hypothesis does
not rest on the disjunction, which the hypothesis cites; the last line does. -/
theorem caseAnalysis_rests_eq_roots :
    Sound caseAnalysis ∧
    ((List.range 8).filter fun r => IsRoot caseAnalysis 4 r).map Nat.cast = [(1 : Int), 3] ∧
    ((List.range 8).filter fun r => IsRoot caseAnalysis 7 r).map Nat.cast
      = [(0 : Int), 1, 2, 3, 5] := by
  have hs : Sound caseAnalysis := by decide +kernel
  exact ⟨hs, (rests_eq_roots caseAnalysis hs 4 _ rfl).symm,
    (rests_eq_roots caseAnalysis hs 7 _ rfl).symm⟩

end NaturalDeduction
