/-
Splicing a renumbered continuation.

Renaming the indices of a line along `σ` gives the line `reindex σ`.  If `σ` is
strictly increasing and leads every citation to the renamed line, the renamed
line is justified where the line was (`Justified.reindex`): a step is judged by
what its citations lead to and by their order, and both are kept.

The renumbering of the second branch of a disjunction elimination is such a
renaming.  It leaves the lines before the branch alone, because these carry no
index from the threshold on (`reindex_shift_of_sound`).  So two sound
continuations of the same lines can stand one behind the other
(`Sound.append_renumber`).
-/
import Mathlib
import NaturalDeduction.Proofs.Check.Justified

namespace NaturalDeduction

variable {lines lines' : List Line} {l : Line} {σ : Int → Int}

/-! ### Renaming indices -/

namespace Line

/-- The line with all its indices renamed. -/
def reindex (σ : Int → Int) (l : Line) : Line :=
  { l with number := σ l.number, rests := l.rests.image σ, cites := l.cites.map σ }

theorem reindex_rule (σ : Int → Int) (l : Line) : (l.reindex σ).rule = l.rule := rfl

theorem states_map_reindex (σ : Int → Int) (lines : List Line) (f : Formula) :
    states (lines.map (reindex σ)) f = states lines f := by
  rw [states, states, List.any_map]
  rfl

theorem restsOf_map_reindex (σ : Int → Int) (lines : List Line) :
    restsOf (lines.map (reindex σ)) = (restsOf lines).image σ := by
  rw [IndexSet.ext_iff_mem]
  intro n
  simp only [restsOf, IndexSet.mem_unions, IndexSet.mem_image, List.mem_map]
  constructor
  · rintro ⟨s, ⟨k', ⟨k, hk, rfl⟩, rfl⟩, hn⟩
    obtain ⟨m, hm, rfl⟩ := IndexSet.mem_image.mp hn
    exact ⟨m, ⟨k.rests, ⟨k, hk, rfl⟩, hm⟩, rfl⟩
  · rintro ⟨m, ⟨s, ⟨k, hk, rfl⟩, hm⟩, rfl⟩
    exact ⟨(k.reindex σ).rests, ⟨k.reindex σ, ⟨k, hk, rfl⟩, rfl⟩,
      IndexSet.mem_image.mpr ⟨m, hm, rfl⟩⟩

end Line

/-- Whatever the indices lead to in `lines`, renamed they lead to renamed in
`lines'`. -/
def Moves (σ : Int → Int) (lines lines' : List Line) (indices : List Int) : Prop :=
  ∀ n ∈ indices, ∀ k, Line.get lines n = .ok k → Line.get lines' (σ n) = .ok (k.reindex σ)

namespace Moves

variable {indices : List Int}

theorem of_cons {n : Int} (h : Moves σ lines lines' (n :: indices)) :
    Moves σ lines lines' indices :=
  fun m hm => h m (List.mem_cons_of_mem n hm)

theorem mapM {cited : List Line} (h : Moves σ lines lines' indices)
    (hcited : indices.mapM (Line.get lines) = .ok cited) :
    (indices.map σ).mapM (Line.get lines') = .ok (cited.map (Line.reindex σ)) := by
  rw [mapM_eq_ok_iff] at hcited ⊢
  induction hcited with
  | nil => exact .nil
  | cons hk _ ih => exact .cons (h _ List.mem_cons_self _ hk) (ih h.of_cons)

theorem citedWhere {test test' : Line → Bool} {r : List Int}
    (h : Moves σ lines lines' indices) (htest : ∀ k, test' (k.reindex σ) = test k)
    (hr : NaturalDeduction.citedWhere lines test indices = .ok r) :
    NaturalDeduction.citedWhere lines' test' (indices.map σ) = .ok (r.map σ) := by
  induction indices generalizing r with
  | nil =>
    obtain rfl := pure_eq_ok_iff.mp hr
    rfl
  | cons n ns ih =>
    rw [NaturalDeduction.citedWhere] at hr
    obtain ⟨k, hk, hr⟩ := bind_eq_ok_iff.mp hr
    obtain ⟨rest, hrest, hr⟩ := bind_eq_ok_iff.mp hr
    obtain rfl := pure_eq_ok_iff.mp hr
    rw [List.map_cons, NaturalDeduction.citedWhere]
    refine bind_eq_ok_iff.mpr ⟨_, h n List.mem_cons_self k hk, ?_⟩
    refine bind_eq_ok_iff.mpr ⟨_, ih h.of_cons hrest, ?_⟩
    rw [pure_eq_ok_iff, htest]
    by_cases hk : test k
    · rw [if_pos hk, if_pos hk, List.map_cons]
    · rw [if_neg hk, if_neg hk]

theorem branchStates {f : Formula} {start stop : Int} {states : Bool} (hσ : StrictMono σ)
    (h : Moves σ lines lines' indices)
    (hstates : NaturalDeduction.branchStates lines indices f start stop = .ok states) :
    NaturalDeduction.branchStates lines' (indices.map σ) f (σ start) (σ stop) = .ok states := by
  rw [NaturalDeduction.branchStates] at hstates ⊢
  obtain ⟨cited, hcited, hstates⟩ := bind_eq_ok_iff.mp hstates
  -- an index lies in the branch exactly when its image lies in the moved one
  have hinside : (indices.map σ).filter (fun n => σ start ≤ n && n < σ stop)
      = (indices.filter fun n => start ≤ n && n < stop).map σ := by
    rw [List.filter_map]
    congr 2
    funext n
    simp [hσ.le_iff_le, hσ.lt_iff_lt]
  have hmoves : Moves σ lines lines' (indices.filter fun n => start ≤ n && n < stop) :=
    fun n hn => h n (List.mem_filter.mp hn).1
  rw [hinside]
  refine bind_eq_ok_iff.mpr ⟨_, hmoves.mapM hcited, ?_⟩
  rw [Line.states_map_reindex]
  exact hstates

end Moves

/-! ### Justified lines under a renaming -/

theorem isHypothesisOf_reindex (hσ : StrictMono σ) (disjunction h : Line) :
    isHypothesisOf (disjunction.reindex σ) (h.reindex σ) = isHypothesisOf disjunction h := by
  have hcites : h.cites.map σ = [σ disjunction.number] ↔ h.cites = [disjunction.number] :=
    (List.map_injective_iff.mpr hσ.injective).eq_iff (b := [disjunction.number])
  rw [Bool.eq_iff_iff]
  simp only [isHypothesisOf, Bool.and_eq_true, decide_eq_true_eq]
  exact and_congr_right fun _ => hcites

theorem EndsBranches.reindex {disjunction : Line} {i j : Int} (hσ : StrictMono σ)
    (hmoves : Moves σ lines lines' l.cites) (h : EndsBranches lines l disjunction i j) :
    EndsBranches lines' (l.reindex σ) (disjunction.reindex σ) (σ i) (σ j) := by
  obtain ⟨⟨n, ns, hcites, hdisj⟩, hhyp, ⟨first, second, hfirst, hsecond, hf⟩, h₁, h₂⟩ := h
  obtain ⟨hmin, hmax⟩ := branchEnds_mem hhyp
  -- a renaming keeps the order, so the earlier hypothesis stays the earlier one
  constructor
  · exact ⟨σ n, ns.map σ, by simp [Line.reindex, hcites], hmoves n (by simp [hcites]) _ hdisj⟩
  · exact hmoves.citedWhere (isHypothesisOf_reindex hσ disjunction) hhyp
  · rw [← hσ.monotone.map_min, ← hσ.monotone.map_max]
    exact ⟨_, _, hmoves _ hmin _ hfirst, hmoves _ hmax _ hsecond, hf⟩
  · rw [← hσ.monotone.map_min, ← hσ.monotone.map_max]
    exact hmoves.branchStates hσ h₁
  · rw [← hσ.monotone.map_max]
    exact hmoves.branchStates hσ h₂

theorem citedProblem?_reindex {test : Formula → List Formula → Bool} {problem : StepProblem}
    (hmoves : Moves σ lines lines' l.cites)
    (h : citedProblem? lines l test problem = .ok none) :
    citedProblem? lines' (l.reindex σ) test problem = .ok none := by
  obtain ⟨cited, hcited, htest⟩ := citedProblem?_eq_ok_none_iff.mp h
  refine citedProblem?_eq_ok_none_iff.mpr ⟨_, hmoves.mapM hcited, ?_⟩
  rw [List.map_map]
  exact htest

theorem conditionalProblem?_reindex (hmoves : Moves σ lines lines' l.cites)
    (h : conditionalProblem? lines l = .ok none) :
    conditionalProblem? lines' (l.reindex σ) = .ok none := by
  obtain ⟨a, b, cited, hf, hcited, ⟨c, hc, hrule, hcf⟩, hstates⟩ :=
    conditionalProblem?_eq_ok_none_iff.mp h
  refine conditionalProblem?_eq_ok_none_iff.mpr
    ⟨a, b, _, hf, hmoves.mapM hcited, ⟨_, List.mem_map_of_mem hc, hrule, hcf⟩, ?_⟩
  rw [Line.states_map_reindex]
  exact hstates

theorem problem?_reindex (hσ : StrictMono σ) (hmoves : Moves σ lines lines' l.cites)
    (h : l.problem? lines = .ok none) : (l.reindex σ).problem? lines' = .ok none := by
  rw [Line.problem?] at h ⊢
  rw [Line.reindex_rule]
  generalize l.rule = rule at h ⊢
  cases rule with
  | assumption | conditionalHypothesis => simpa [assumptionProblem?, Line.reindex] using h
  | modusPonens | modusTollens | conjElim | conjIntro | disjIntro | doubleNegation
  | disjHypothesis => exact citedProblem?_reindex hmoves h
  | disjElim =>
    obtain ⟨disjunction, i, j, hends⟩ := disjElimProblem?_eq_ok_none_iff.mp h
    exact disjElimProblem?_eq_ok_none_iff.mpr ⟨_, _, _, hends.reindex hσ hmoves⟩
  | conditionalProof => exact conditionalProblem?_reindex hmoves h
  | reductio => rfl

theorem expectedRests_reindex {s : IndexSet} (hmoves : Moves σ lines lines' l.cites)
    (h : expectedRests lines l = .ok s) : expectedRests lines' (l.reindex σ) = .ok (s.image σ) := by
  rw [expectedRests] at h ⊢
  rw [Line.reindex_rule]
  by_cases hrule : l.rule.isAssumed
  · rw [if_pos hrule] at h ⊢
    obtain rfl := pure_eq_ok_iff.mp h
    rw [pure_eq_ok_iff, IndexSet.ext_iff_mem]
    intro n
    simp [Line.reindex, eq_comm]
  · rw [if_neg hrule] at h ⊢
    obtain ⟨cited, hcited, rfl⟩ := Line.restsAt_eq_ok_iff.mp h
    exact Line.restsAt_eq_ok_iff.mpr
      ⟨_, hmoves.mapM hcited, (Line.restsOf_map_reindex σ cited).symm⟩

/-- **A renamed line is justified where the line was.** -/
theorem Justified.reindex (hσ : StrictMono σ) (hzero : 0 ≤ σ 0)
    (hlen : σ lines.length = lines'.length) (hmoves : Moves σ lines lines' l.cites)
    (h : Justified lines l) : Justified lines' (l.reindex σ) where
  number := by
    rw [← hlen, ← h.number]
    rfl
  backward := by
    intro n hn
    obtain ⟨m, hm, rfl⟩ := List.mem_map.mp hn
    obtain ⟨hnonneg, hlt⟩ := h.backward m hm
    rw [← hlen]
    exact ⟨hzero.trans (hσ.monotone hnonneg), hσ hlt⟩
  supported := h.supported
  step := problem?_reindex hσ hmoves h.step
  rests := expectedRests_reindex hmoves h.rests

/-! ### Splicing -/

namespace Line

/-- How an index moves when `offset` lines are put in front of line
`threshold`. -/
def shift (offset threshold n : Int) : Int :=
  if threshold ≤ n then n + offset else n

theorem shift_of_lt {offset threshold n : Int} (h : n < threshold) :
    shift offset threshold n = n :=
  if_neg (by omega)

theorem shift_of_le {offset threshold n : Int} (h : threshold ≤ n) :
    shift offset threshold n = n + offset :=
  if_pos h

theorem shift_strictMono {offset : Int} (threshold : Int) (hoffset : 0 ≤ offset) :
    StrictMono (shift offset threshold) := by
  intro m n hmn
  rw [shift, shift]
  split
  · rw [if_pos (by omega)]
    omega
  · split
    · omega
    · exact hmn

/-- From the threshold on, renumbering renames all indices. -/
theorem renumber_eq_reindex {offset threshold : Int} (h : threshold ≤ l.number) :
    l.renumber offset threshold = l.reindex (shift offset threshold) := by
  rw [reindex, shift_of_le h]
  rfl

end Line

theorem Sound.cites_lt (h : Sound lines) (hl : l ∈ lines) {n : Int} (hn : n ∈ l.cites) :
    n < lines.length := by
  obtain ⟨i, hi⟩ := List.getElem?_of_mem hl
  have hlt := (List.getElem?_eq_some_iff.mp hi).1
  have hcite := ((sound_iff.mp h).1 i l hi).2 n hn
  omega

/-- A line of a sound sequence rests on lines of the sequence. -/
theorem Sound.rests_lt (h : Sound lines) (hl : l ∈ lines) {n : Int} (hn : n ∈ l.rests) :
    n < lines.length := by
  induction lines using List.reverseRecOn generalizing l with
  | nil => simp at hl
  | append_singleton before k ih =>
    obtain ⟨hbefore, hk⟩ := sound_append_singleton.mp h
    rw [List.length_append, List.length_singleton]
    rcases List.mem_append.mp hl with hl | hl
    · have := ih hbefore hl hn
      omega
    · obtain rfl := List.mem_singleton.mp hl
      have hrests := hk.rests
      rw [expectedRests] at hrests
      -- an assumed line rests on itself, any other on what its citations rest on
      split at hrests
      · rw [pure_eq_ok_iff.mp hrests, IndexSet.mem_singleton, hk.number] at hn
        omega
      · obtain ⟨cited, hcited, hunion⟩ := Line.restsAt_eq_ok_iff.mp hrests
        rw [hunion, Line.restsOf, IndexSet.mem_unions] at hn
        obtain ⟨s, hs, hn⟩ := hn
        obtain ⟨c, hc, rfl⟩ := List.mem_map.mp hs
        obtain ⟨m, hm, hget⟩ := exists_of_mem_mapM hcited hc
        have := ih hbefore (Line.mem_of_get (hk.backward m hm).1 hget) hn
        omega

/-- A sound sequence has no index that a shift behind it would move. -/
theorem reindex_shift_of_sound (h : Sound lines) (hl : l ∈ lines) (offset : Int) :
    l.reindex (Line.shift offset lines.length) = l := by
  have hnumber : Line.shift offset lines.length l.number = l.number :=
    Line.shift_of_lt (h.wellNumbered.number_lt hl)
  have hrests : l.rests.image (Line.shift offset lines.length) = l.rests := by
    rw [IndexSet.ext_iff_mem]
    intro n
    rw [IndexSet.mem_image]
    constructor
    · rintro ⟨m, hm, rfl⟩
      rw [Line.shift_of_lt (h.rests_lt hl hm)]
      exact hm
    · intro hn
      exact ⟨n, hn, Line.shift_of_lt (h.rests_lt hl hn)⟩
  have hcites : l.cites.map (Line.shift offset lines.length) = l.cites := by
    rw [List.map_congr_left fun n hn => Line.shift_of_lt (h.cites_lt hl hn), List.map_id']
  rw [Line.reindex, hnumber, hrests, hcites]

variable {base first second : List Line}

/-- What the indices of `base ++ second` lead to once `first` is put between
them. -/
theorem moves_splice (h : Sound (base ++ second)) {indices : List Int}
    (hrange : ∀ n ∈ indices, 0 ≤ n ∧ n < (base ++ second).length) :
    Moves (Line.shift first.length base.length) (base ++ second)
      (base ++ first ++ second.map (Line.renumber first.length base.length)) indices := by
  intro n hn k hk
  obtain ⟨hnonneg, hlt⟩ := hrange n hn
  rcases Int.lt_or_le n base.length with hbase | hbase
  · -- an index of `base` stays where it is, and so does the line there
    rw [Line.get_append hnonneg hbase] at hk
    rw [Line.shift_of_lt hbase, List.append_assoc, Line.get_append hnonneg hbase, hk,
      reindex_shift_of_sound h.of_append (Line.mem_of_get hnonneg hk)]
  · -- an index of `second` moves with its line
    have hplace := (Line.get_eq_ok_iff hnonneg).mp hk
    have hnumber : k.number = n := h.wellNumbered.number_of_get hnonneg hk
    rw [Line.shift_of_le hbase, ← Line.renumber_eq_reindex (by omega),
      Line.get_eq_ok_iff (by omega), List.getElem?_append_right (by simp; omega),
      List.getElem?_map, Option.map_eq_some_iff]
    refine ⟨k, ?_, rfl⟩
    rw [List.getElem?_append_right (by omega)] at hplace
    rw [← hplace]
    congr 1
    rw [List.length_append]
    omega

/-- **Of two sound continuations of the same lines, the second can be put
behind the first and renumbered.** -/
theorem Sound.append_renumber (h₁ : Sound (base ++ first)) (h₂ : Sound (base ++ second)) :
    Sound (base ++ first ++ second.map (Line.renumber first.length base.length)) := by
  -- line by line from the front: each is justified by those already put behind
  induction second using List.reverseRecOn with
  | nil => simpa using h₁
  | append_singleton before k ih =>
    rw [← List.append_assoc] at h₂
    obtain ⟨hbefore, hk⟩ := sound_append_singleton.mp h₂
    have hthreshold : (base.length : Int) ≤ k.number := by
      rw [hk.number, List.length_append]
      omega
    rw [List.map_append, ← List.append_assoc, List.map_singleton, sound_append_singleton,
      Line.renumber_eq_reindex hthreshold]
    refine ⟨ih hbefore, hk.reindex ?_ ?_ ?_ (moves_splice hbefore hk.backward)⟩
    · exact Line.shift_strictMono _ (Int.natCast_nonneg _)
    · rw [Line.shift]
      split <;> omega
    · rw [← hk.number, Line.shift_of_le hthreshold, hk.number]
      simp only [List.length_append, List.length_map]
      omega

end NaturalDeduction
