/-
Lines that are justified by the lines before them.

The check goes through a whole sequence layer by layer.  What it accepts can be
said line by line: `Justified before l` says that `l` may stand after `before`,
and a sequence is sound exactly when it is empty or a justified line after a
sound sequence (`sound_append_singleton`).  This is so because a step is judged
by its citations alone (`problem?_congr`), and citations lead backwards.

Each rule is described by what it asks of the cited lines: the rules that add
one line by the shape of the cited formulas (`isModusPonens_iff` and the like),
the block rules by `conditionalProblem?_eq_ok_none_iff` and
`disjElimProblem?_eq_ok_none_iff`.
-/
import Mathlib.Order.MinMax
import NaturalDeduction.Check.Verdict
import NaturalDeduction.Proofs.Line.Lookup

namespace NaturalDeduction

variable {lines lines' : List Line} {l : Line}

/-! ### A step is judged by its citations -/

theorem citedWhere_congr {test : Line → Bool} {indices : List Int}
    (h : ∀ n ∈ indices, Line.get lines n = Line.get lines' n) :
    citedWhere lines test indices = citedWhere lines' test indices := by
  induction indices with
  | nil => rfl
  | cons n ns ih =>
    rw [citedWhere, citedWhere, h n (by simp), ih fun m hm => h m (List.mem_cons_of_mem n hm)]

theorem mem_citedWhere_iff {test : Line → Bool} {indices r : List Int} {n : Int}
    (h : citedWhere lines test indices = .ok r) :
    n ∈ r ↔ n ∈ indices ∧ ∃ k, Line.get lines n = .ok k ∧ test k = true := by
  induction indices generalizing r with
  | nil =>
    obtain rfl := pure_eq_ok_iff.mp h
    simp
  | cons m ms ih =>
    rw [citedWhere] at h
    obtain ⟨k, hk, h⟩ := bind_eq_ok_iff.mp h
    obtain ⟨rest, hrest, h⟩ := bind_eq_ok_iff.mp h
    obtain rfl := pure_eq_ok_iff.mp h
    by_cases htest : test k = true
    · rw [if_pos htest, List.mem_cons, List.mem_cons, ih hrest]
      grind
    · rw [if_neg htest, List.mem_cons, ih hrest]
      grind

/-- Both ends of the branches are citations. -/
theorem branchEnds_mem {test : Line → Bool} {indices : List Int} {i j : Int}
    (h : citedWhere lines test indices = .ok [i, j]) :
    min i j ∈ indices ∧ max i j ∈ indices := by
  have hi : i ∈ indices := ((mem_citedWhere_iff h).mp (by simp)).1
  have hj : j ∈ indices := ((mem_citedWhere_iff h).mp (by simp)).1
  constructor
  · rcases min_choice i j with hmin | hmin <;> rwa [hmin]
  · rcases max_choice i j with hmax | hmax <;> rwa [hmax]

theorem branchStates_congr {indices : List Int} {f : Formula} {start stop : Int}
    (h : ∀ n ∈ indices, Line.get lines n = Line.get lines' n) :
    branchStates lines indices f start stop = branchStates lines' indices f start stop := by
  rw [branchStates, branchStates, mapM_congr fun n hn => h n (List.mem_filter.mp hn).1]

theorem disjElimProblem?_congr (h : ∀ n ∈ l.cites, Line.get lines n = Line.get lines' n) :
    disjElimProblem? lines l = disjElimProblem? lines' l := by
  rw [disjElimProblem?, disjElimProblem?]
  split
  · rfl
  · next n ns hcites =>
    rw [h n (by simp [hcites])]
    rcases Line.get lines' n with fault | disjunction
    · rfl
    · simp only [bind, Except.bind]
      split
      · next a b _ =>
        rw [citedWhere_congr h]
        rcases hwhere : citedWhere lines' (fun h => decide (h.rule = .disjHypothesis)
          && decide (h.cites = [disjunction.number])) l.cites with fault | r
        · rfl
        · simp only
          split
          · next i j =>
            obtain ⟨hmin, hmax⟩ := branchEnds_mem hwhere
            rw [h _ hmin, h _ hmax, branchStates_congr h, branchStates_congr h]
          · rfl
      · rfl

theorem citedProblem?_congr {test : Formula → List Formula → Bool} {problem : StepProblem}
    (h : ∀ n ∈ l.cites, Line.get lines n = Line.get lines' n) :
    citedProblem? lines l test problem = citedProblem? lines' l test problem := by
  rw [citedProblem?, citedProblem?, mapM_congr h]

/-- Sequences that agree on the citations of a line judge it alike. -/
theorem problem?_congr (h : ∀ n ∈ l.cites, Line.get lines n = Line.get lines' n) :
    l.problem? lines = l.problem? lines' := by
  rw [Line.problem?, Line.problem?]
  rcases l.rule <;> simp only [citedProblem?_congr h, disjElimProblem?_congr h]
  · rw [conditionalProblem?, conditionalProblem?, mapM_congr h]

/-! ### What the rules ask for -/

section Tests

variable {f : Formula} {fs : List Formula}

theorem isModusPonens_iff : isModusPonens f fs = true ↔ ∃ a, fs = [.imp a f, a] := by
  unfold isModusPonens
  split
  · next a b c =>
    constructor
    · intro h
      obtain ⟨rfl, rfl⟩ : a = c ∧ b = f := by simpa using h
      exact ⟨a, rfl⟩
    · rintro ⟨a', h⟩
      obtain ⟨⟨rfl, rfl⟩, rfl⟩ : (a = a' ∧ b = f) ∧ c = a' := by simpa using h
      simp
  · next hfs =>
    simp only [Bool.false_eq_true, false_iff]
    rintro ⟨a, rfl⟩
    exact hfs a f a rfl

theorem isModusTollens_iff :
    isModusTollens f fs = true ↔ ∃ a b, fs = [.imp a b, .neg b] ∧ f = .neg a := by
  unfold isModusTollens
  split
  · next a b c => simp
  · next hfs =>
    simp only [Bool.false_eq_true, false_iff]
    rintro ⟨a, b, rfl, -⟩
    exact hfs a b (.neg b) rfl

theorem isConjElim_iff :
    isConjElim f fs = true ↔ ∃ a b, fs = [.conj a b] ∧ (f = a ∨ f = b) := by
  unfold isConjElim
  split
  · next a b => simp
  · next hfs =>
    simp only [Bool.false_eq_true, false_iff]
    rintro ⟨a, b, rfl, -⟩
    exact hfs a b rfl

theorem isConjIntro_iff : isConjIntro f fs = true ↔ ∃ a b, fs = [a, b] ∧ f = .conj a b := by
  unfold isConjIntro
  split
  · next a b => simp
  · next hfs =>
    simp only [Bool.false_eq_true, false_iff]
    rintro ⟨a, b, rfl, -⟩
    exact hfs a b rfl

theorem isDisjIntro_iff :
    isDisjIntro f fs = true ↔
      (∃ a b, fs = [a, b] ∧ f = .disj a b) ∨
      ∃ a b c, fs = [a] ∧ f = .disj b c ∧ (a = b ∨ a = c) := by
  unfold isDisjIntro
  split
  · next a b => simp
  · next a =>
    split
    · next b c => simp
    · next hf =>
      simp only [Bool.false_eq_true, false_iff]
      rintro (⟨_, _, hfs, -⟩ | ⟨_, b, c, -, rfl, -⟩)
      · simp at hfs
      · exact hf b c rfl
  · next hpair hsingle =>
    simp only [Bool.false_eq_true, false_iff]
    rintro (⟨a, b, rfl, -⟩ | ⟨a, _, _, rfl, -⟩)
    · exact hpair a b rfl
    · exact hsingle a rfl

theorem isDoubleNegation_iff :
    isDoubleNegation f fs = true ↔
      ∃ a, fs = [a] ∧ (f = .neg (.neg a) ∨ a = .neg (.neg f)) := by
  unfold isDoubleNegation
  split
  · next a => simp
  · next hfs =>
    simp only [Bool.false_eq_true, false_iff]
    rintro ⟨a, rfl, -⟩
    exact hfs a rfl

end Tests

theorem citedProblem?_eq_ok_none_iff {test : Formula → List Formula → Bool}
    {problem : StepProblem} :
    citedProblem? lines l test problem = .ok none ↔
      ∃ cited, l.cites.mapM (Line.get lines) = .ok cited ∧
        test l.formula (cited.map (·.formula)) = true := by
  rw [citedProblem?, bind_eq_ok_iff]
  refine exists_congr fun cited => and_congr_right fun _ => ?_
  rcases test l.formula (cited.map (·.formula)) with _ | _
  · simp [pure, Except.pure]
  · simp [pure, Except.pure]

theorem conditionalProblem?_eq_ok_none_iff :
    conditionalProblem? lines l = .ok none ↔
      ∃ a b cited, l.formula = .imp a b ∧ l.cites.mapM (Line.get lines) = .ok cited ∧
        (∃ c ∈ cited, c.rule = .conditionalHypothesis ∧ c.formula = a) ∧
        Line.states cited b = true := by
  rw [conditionalProblem?]
  split
  · next a b hf =>
    rw [bind_eq_ok_iff]
    constructor
    · rintro ⟨cited, hcited, h⟩
      refine ⟨a, b, cited, hf, hcited, ?_⟩
      split at h
      · cases h
      · next hhyp =>
        split at h
        · cases h
        · next hstates => exact ⟨by simpa using hhyp, by simpa using hstates⟩
    · rintro ⟨a', b', cited, hf', hcited, ⟨c, hc, hrule, hcf⟩, hstates⟩
      obtain ⟨rfl, rfl⟩ := Formula.imp.inj (hf.symm.trans hf')
      refine ⟨cited, hcited, ?_⟩
      have hhyp : cited.any (fun c => c.rule = .conditionalHypothesis && c.formula = a) = true :=
        List.any_eq_true.mpr ⟨c, hc, by simp [hrule, hcf]⟩
      simp [hhyp, hstates, pure, Except.pure]
  · next hf =>
    constructor
    · intro h
      cases h
    · rintro ⟨a, b, -, hf', -⟩
      exact absurd hf' (hf a b)

/-- Whether a line is a hypothesis drawn from a disjunction. -/
def isHypothesisOf (disjunction h : Line) : Bool :=
  h.rule = .disjHypothesis && h.cites = [disjunction.number]

/-- What makes a line a disjunction elimination: the first citation is a
disjunction, two of the cited lines are hypotheses drawn from it, one for each
side, and both branches state the formula. -/
structure EndsBranches (lines : List Line) (l disjunction : Line) (i j : Int) : Prop where
  cited : ∃ n ns, l.cites = n :: ns ∧ Line.get lines n = .ok disjunction
  hypotheses : citedWhere lines (isHypothesisOf disjunction) l.cites = .ok [i, j]
  sides : ∃ first second, Line.get lines (min i j) = .ok first ∧
    Line.get lines (max i j) = .ok second ∧
    disjunction.formula = .disj first.formula second.formula
  first : branchStates lines l.cites l.formula (min i j) (max i j) = .ok true
  second : branchStates lines l.cites l.formula (max i j) l.number = .ok true

theorem disjElimProblem?_eq_ok_none_iff :
    disjElimProblem? lines l = .ok none ↔
      ∃ disjunction i j, EndsBranches lines l disjunction i j := by
  rw [disjElimProblem?]
  split
  · next hcites =>
    constructor
    · intro h
      cases h
    · rintro ⟨_, _, _, ⟨n, ns, hcites', -⟩, -⟩
      rw [hcites] at hcites'
      cases hcites'
  · next n ns hcites =>
    constructor
    · -- every way out but the last one reports a problem
      intro h
      obtain ⟨disjunction, hdisj, h⟩ := bind_eq_ok_iff.mp h
      split at h
      · next a b hf =>
        obtain ⟨r, hr, h⟩ := bind_eq_ok_iff.mp h
        split at h
        · next i j =>
          obtain ⟨first, hfirst, h⟩ := bind_eq_ok_iff.mp h
          obtain ⟨second, hsecond, h⟩ := bind_eq_ok_iff.mp h
          split at h
          · cases h
          · next hsides =>
            obtain ⟨states₁, h₁, h⟩ := bind_eq_ok_iff.mp h
            rcases states₁ with _ | _
            · cases h
            · obtain ⟨states₂, h₂, h⟩ := bind_eq_ok_iff.mp h
              rcases states₂ with _ | _
              · cases h
              · obtain ⟨rfl, rfl⟩ : first.formula = a ∧ second.formula = b := by
                  simpa using hsides
                exact ⟨disjunction, i, j, ⟨n, ns, hcites, hdisj⟩, hr,
                  ⟨first, second, hfirst, hsecond, hf⟩, h₁, h₂⟩
        · cases h
      · cases h
    · rintro ⟨disjunction, i, j, ⟨n', ns', hcites', hdisj⟩, hr,
        ⟨first, second, hfirst, hsecond, hf⟩, h₁, h₂⟩
      obtain ⟨rfl, rfl⟩ := List.cons.inj (hcites.symm.trans hcites')
      refine bind_eq_ok_iff.mpr ⟨disjunction, hdisj, ?_⟩
      rw [hf]
      refine bind_eq_ok_iff.mpr ⟨[i, j], hr, ?_⟩
      refine bind_eq_ok_iff.mpr ⟨first, hfirst, ?_⟩
      refine bind_eq_ok_iff.mpr ⟨second, hsecond, ?_⟩
      rw [if_neg (by simp)]
      refine bind_eq_ok_iff.mpr ⟨true, h₁, ?_⟩
      exact bind_eq_ok_iff.mpr ⟨true, h₂, rfl⟩

/-! ### Justified lines -/

/-- A line that may stand after `before`: it has the next number, cites lines
of `before`, follows from them by its rule, and rests on what it should. -/
structure Justified (before : List Line) (l : Line) : Prop where
  number : l.number = before.length
  backward : ∀ n ∈ l.cites, 0 ≤ n ∧ n < before.length
  supported : l.rule ≠ .reductio
  step : l.problem? before = .ok none
  rests : expectedRests before l = .ok l.rests

theorem expectedRests_congr (h : ∀ n ∈ l.cites, Line.get lines n = Line.get lines' n) :
    expectedRests lines l = expectedRests lines' l := by
  rw [expectedRests, expectedRests, Line.restsAt, Line.restsAt, mapM_congr h]

theorem numberingDefect?_eq_none_iff {place : Nat} :
    numberingDefect? l place = none ↔
      l.number = place ∧ ∀ n ∈ l.cites, 0 ≤ n ∧ n < place := by
  rw [numberingDefect?]
  by_cases hnumber : l.number = place
  · simp [hnumber]
  · simp [hnumber]

/-- The first layer of the check, for any way `test` to write down its test. -/
theorem findSome?_numberingDefect?_eq_none_iff {test : Line × Nat → Option Defect}
    (htest : ∀ l i, test (l, i) = numberingDefect? l i) :
    lines.zipIdx.findSome? test = none ↔
      ∀ (i : Nat) (l : Line), lines[i]? = some l →
        l.number = i ∧ ∀ n ∈ l.cites, 0 ≤ n ∧ n < i := by
  rw [List.findSome?_eq_none_iff]
  simp only [Prod.forall, List.mk_mem_zipIdx_iff_getElem?, htest, numberingDefect?_eq_none_iff]
  exact forall_comm

theorem stepDefect?_eq_ok_none_iff :
    stepDefect? lines l = .ok none ↔ l.rule ≠ .reductio ∧ l.problem? lines = .ok none := by
  rw [stepDefect?]
  by_cases hrule : l.rule = .reductio
  · simp [hrule, pure, Except.pure]
  · rcases l.problem? lines with fault | problem
    · simp [hrule, bind, Except.bind]
    · simp [hrule, bind, Except.bind, pure, Except.pure]

theorem restsDefect?_eq_ok_none_iff :
    restsDefect? lines l = .ok none ↔ expectedRests lines l = .ok l.rests := by
  rw [restsDefect?, bind_eq_ok_iff]
  constructor
  · rintro ⟨expected, hexpected, h⟩
    by_cases hrests : l.rests = expected
    · rw [hexpected, hrests]
    · simp [hrests, pure, Except.pure] at h
  · intro h
    exact ⟨l.rests, h, by simp [pure, Except.pure]⟩

theorem firstAmong_eq_ok_none_iff {test : Line → Except Fault (Option Defect)} :
    firstAmong test lines = .ok none ↔ ∀ l ∈ lines, test l = .ok none := by
  induction lines with
  | nil => simp [firstAmong, pure, Except.pure]
  | cons l rest ih =>
    rw [firstAmong, List.forall_mem_cons, ← ih, bind_eq_ok_iff]
    constructor
    · rintro ⟨defect, hdefect, h⟩
      rcases defect with - | d
      · exact ⟨hdefect, h⟩
      · cases h
    · rintro ⟨hl, hrest⟩
      exact ⟨none, hl, hrest⟩

/-- The layers of the check that look at the lines alone, line by line. -/
theorem sound_iff :
    Sound lines ↔
      (∀ (i : Nat) (l : Line), lines[i]? = some l →
        l.number = i ∧ ∀ n ∈ l.cites, 0 ≤ n ∧ n < i) ∧
      (∀ l ∈ lines, l.rule ≠ .reductio ∧ l.problem? lines = .ok none) ∧
      ∀ l ∈ lines, expectedRests lines l = .ok l.rests := by
  simp only [← stepDefect?_eq_ok_none_iff, ← restsDefect?_eq_ok_none_iff,
    ← firstAmong_eq_ok_none_iff]
  rw [Sound, firstDefect]
  split
  · -- a numbering defect ends the check before the steps are looked at
    next d hd =>
    constructor
    · intro h
      cases h
    · rintro ⟨hnumbering, -, -⟩
      have hnone := hd.symm.trans
        ((findSome?_numberingDefect?_eq_none_iff fun _ _ => by rfl).mpr hnumbering)
      cases hnone
  · next hnone =>
    have hnumbering := (findSome?_numberingDefect?_eq_none_iff fun _ _ => by rfl).mp hnone
    rw [bind_eq_ok_iff]
    constructor
    · rintro ⟨defect, hdefect, h⟩
      rcases defect with - | d
      · exact ⟨hnumbering, hdefect, h⟩
      · cases h
    · rintro ⟨-, hsteps, hrests⟩
      exact ⟨none, hsteps, hrests⟩

/-! ### Sound sequences -/

theorem Sound.wellNumbered (h : Sound lines) : Line.WellNumbered lines :=
  fun i l hi => ((sound_iff.mp h).1 i l hi).1

/-- Citations of the line at a place are looked up among the lines before
it. -/
theorem get_take {i : Nat} (hi : lines[i]? = some l)
    (h : ∀ n ∈ l.cites, 0 ≤ n ∧ n < (i : Int)) :
    ∀ n ∈ l.cites, Line.get (lines.take i) n = Line.get lines n := by
  intro n hn
  have hlt := (List.getElem?_eq_some_iff.mp hi).1
  have hlen : (lines.take i).length = i := List.length_take_of_le (Nat.le_of_lt hlt)
  obtain ⟨hnonneg, hn'⟩ := h n hn
  -- the lines from `i` on do not matter for an index below `i`
  conv_rhs => rw [← List.take_append_drop i lines]
  rw [Line.get_append hnonneg (by omega)]

/-- **A sequence is sound when every line is justified by those before it.** -/
theorem sound_iff_justified :
    Sound lines ↔
      ∀ (i : Nat) (l : Line), lines[i]? = some l → Justified (lines.take i) l := by
  have hlen : ∀ (i : Nat) (l : Line), lines[i]? = some l → (lines.take i).length = i :=
    fun i l hi => List.length_take_of_le (Nat.le_of_lt (List.getElem?_eq_some_iff.mp hi).1)
  constructor
  · intro h i l hi
    obtain ⟨hnumbering, hsteps, hrests⟩ := sound_iff.mp h
    obtain ⟨hnumber, hbackward⟩ := hnumbering i l hi
    have hget := get_take hi hbackward
    have hl := List.mem_of_getElem? hi
    constructor
    · rw [hlen i l hi]
      exact hnumber
    · rw [hlen i l hi]
      exact hbackward
    · exact (hsteps l hl).1
    · rw [problem?_congr hget]
      exact (hsteps l hl).2
    · rw [expectedRests_congr hget]
      exact hrests l hl
  · intro h
    have hnumbering : ∀ (i : Nat) (l : Line), lines[i]? = some l →
        l.number = i ∧ ∀ n ∈ l.cites, 0 ≤ n ∧ n < i := by
      intro i l hi
      have hl := h i l hi
      exact ⟨by rw [hl.number, hlen i l hi], fun n hn => hlen i l hi ▸ hl.backward n hn⟩
    refine sound_iff.mpr ⟨hnumbering, fun l hl => ?_, fun l hl => ?_⟩
    · obtain ⟨i, hi⟩ := List.getElem?_of_mem hl
      rw [← problem?_congr (get_take hi (hnumbering i l hi).2)]
      exact ⟨(h i l hi).supported, (h i l hi).step⟩
    · obtain ⟨i, hi⟩ := List.getElem?_of_mem hl
      rw [← expectedRests_congr (get_take hi (hnumbering i l hi).2)]
      exact (h i l hi).rests

theorem sound_append_singleton :
    Sound (lines ++ [l]) ↔ Sound lines ∧ Justified lines l := by
  rw [sound_iff_justified, sound_iff_justified]
  constructor
  · intro h
    refine ⟨fun i k hi => ?_, ?_⟩
    · have hlt := (List.getElem?_eq_some_iff.mp hi).1
      rw [← List.take_append_of_le_length (Nat.le_of_lt hlt)]
      exact h i k (by rw [List.getElem?_append_left hlt, hi])
    · simpa using h lines.length l (by simp)
  · rintro ⟨h, hl⟩ i k hi
    rcases Nat.lt_trichotomy i lines.length with hlt | rfl | hgt
    · rw [List.take_append_of_le_length (Nat.le_of_lt hlt)]
      exact h i k (by rwa [List.getElem?_append_left hlt] at hi)
    · obtain rfl : l = k := by simpa using hi
      simpa using hl
    · rw [List.getElem?_eq_none (by simp; omega)] at hi
      cases hi

/-- Assumptions need nothing before them. -/
theorem sound_ofAssumptions (fs : List Formula) : Sound (Line.ofAssumptions fs) := by
  refine sound_iff.mpr ⟨fun i l hi => ⟨Line.wellNumbered_ofAssumptions fs i l hi, ?_⟩, ?_, ?_⟩
  · obtain ⟨i, f, rfl⟩ := Line.mem_ofAssumptions (List.mem_of_getElem? hi)
    simp [Line.ofAssumption]
  · intro l hl
    obtain ⟨i, f, rfl⟩ := Line.mem_ofAssumptions hl
    exact ⟨Rule.noConfusion, rfl⟩
  · intro l hl
    obtain ⟨i, f, rfl⟩ := Line.mem_ofAssumptions hl
    rfl

theorem Sound.of_append {more : List Line} (h : Sound (lines ++ more)) : Sound lines := by
  rw [sound_iff_justified] at h ⊢
  intro i l hi
  have hlt := (List.getElem?_eq_some_iff.mp hi).1
  rw [← List.take_append_of_le_length (Nat.le_of_lt hlt)]
  exact h i l (by rw [List.getElem?_append_left hlt, hi])

end NaturalDeduction
