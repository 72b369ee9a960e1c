/-
Spliced sequences.

Putting lines between a sequence and its continuation, and renumbering the
continuation, keeps the continuation sound (`Sound.append_renumber`).  It also
hides nothing: if the renumbered lines are sound where they stand, so were the
lines before they were renumbered.

For a single line this is the converse of `Justified.reindex`.  The citations of
the line lead somewhere, and so every question that the check asks of the line
has an answer; renamed, the question has the renamed answer; and a renaming that
is strictly increasing tells different answers apart (`Justified.of_reindex`).

Main result: `spliced_sound_iff`.
-/
import NaturalDeduction.Proofs.Check.Splice
import NaturalDeduction.Proofs.Check.Total

namespace NaturalDeduction

variable {lines lines' : List Line} {l : Line} {σ : Int → Int}

theorem IndexSet.image_injective (hσ : Function.Injective σ) :
    Function.Injective (IndexSet.image σ) := by
  intro s t hst
  rw [IndexSet.ext_iff_mem] at hst ⊢
  have hmem : ∀ (s : IndexSet) (n : Int), σ n ∈ s.image σ ↔ n ∈ s := by
    intro s n
    rw [IndexSet.mem_image]
    constructor
    · rintro ⟨m, hm, hmn⟩
      exact hσ hmn ▸ hm
    · intro hn
      exact ⟨n, hn, rfl⟩
  intro n
  rw [← hmem s, hst, hmem t]

/-! ### Lines that are justified once renamed -/

section Renamed

variable (hrange : ∀ n ∈ l.cites, 0 ≤ n ∧ n < (lines.length : Int))
  (hmoves : Moves σ lines lines' l.cites)

include hrange hmoves

theorem citedProblem?_of_reindex {test : Formula → List Formula → Bool} {problem : StepProblem}
    (h : citedProblem? lines' (l.reindex σ) test problem = .ok none) :
    citedProblem? lines l test problem = .ok none := by
  obtain ⟨cited, hcited⟩ := Line.exists_mapM_get hrange
  obtain ⟨cited', hcited', htest⟩ := citedProblem?_eq_ok_none_iff.mp h
  obtain rfl := Except.ok.inj (hcited'.symm.trans (hmoves.mapM hcited))
  refine citedProblem?_eq_ok_none_iff.mpr ⟨cited, hcited, ?_⟩
  rw [List.map_map] at htest
  exact htest

theorem conditionalProblem?_of_reindex
    (h : conditionalProblem? lines' (l.reindex σ) = .ok none) :
    conditionalProblem? lines l = .ok none := by
  obtain ⟨cited, hcited⟩ := Line.exists_mapM_get hrange
  obtain ⟨a, b, cited', hf, hcited', ⟨c', hc', hrule, hcf⟩, hstates⟩ :=
    conditionalProblem?_eq_ok_none_iff.mp h
  obtain rfl := Except.ok.inj (hcited'.symm.trans (hmoves.mapM hcited))
  obtain ⟨c, hc, rfl⟩ := List.mem_map.mp hc'
  rw [Line.states_map_reindex] at hstates
  exact conditionalProblem?_eq_ok_none_iff.mpr
    ⟨a, b, cited, hf, hcited, ⟨c, hc, hrule, hcf⟩, hstates⟩

theorem branchStates_of_reindex {f : Formula} {start stop : Int} (hσ : StrictMono σ)
    (h : branchStates lines' (l.cites.map σ) f (σ start) (σ stop) = .ok true) :
    branchStates lines l.cites f start stop = .ok true := by
  obtain ⟨states, hstates⟩ := exists_branchStates hrange f start stop
  obtain rfl := Except.ok.inj (h.symm.trans (hmoves.branchStates hσ hstates))
  exact hstates

/-- What a renamed citation leads to is what the citation leads to, renamed. -/
theorem exists_get_of_reindex {n : Int} {k' : Line} (hn : n ∈ l.cites)
    (h : Line.get lines' (σ n) = .ok k') :
    ∃ k, Line.get lines n = .ok k ∧ k' = k.reindex σ := by
  obtain ⟨k, -, hk⟩ := Line.exists_get (hrange n hn).1 (hrange n hn).2
  exact ⟨k, hk, Except.ok.inj (h.symm.trans (hmoves n hn k hk))⟩

theorem EndsBranches.of_reindex {disjunction' : Line} {i' j' : Int} (hσ : StrictMono σ)
    (h : EndsBranches lines' (l.reindex σ) disjunction' i' j') :
    ∃ disjunction i j, EndsBranches lines l disjunction i j := by
  obtain ⟨⟨n', ns', hcites', hdisj'⟩, hhyp', ⟨first', second', hfirst', hsecond', hf⟩, h₁, h₂⟩ := h
  -- the disjunction and the two hypotheses, as they were before the renaming
  obtain ⟨n, ns, hcites, rfl, rfl⟩ := List.map_eq_cons_iff.mp hcites'
  have hn : n ∈ l.cites := by simp [hcites]
  obtain ⟨disjunction, hdisj, rfl⟩ := exists_get_of_reindex hrange hmoves hn hdisj'
  obtain ⟨r, hr⟩ := exists_citedWhere hrange (isHypothesisOf disjunction)
  have hr' := Except.ok.inj
    (hhyp'.symm.trans (hmoves.citedWhere (isHypothesisOf_reindex hσ disjunction) hr))
  obtain ⟨i, js, rfl, rfl, hjs⟩ := List.map_eq_cons_iff.mp hr'.symm
  obtain ⟨j, rfl, rfl⟩ := List.map_eq_singleton_iff.mp hjs
  rw [← hσ.monotone.map_min] at hfirst' h₁
  rw [← hσ.monotone.map_max] at hsecond' h₁ h₂
  obtain ⟨hmin, hmax⟩ := branchEnds_mem hr
  obtain ⟨first, hfirst, rfl⟩ := exists_get_of_reindex hrange hmoves hmin hfirst'
  obtain ⟨second, hsecond, rfl⟩ := exists_get_of_reindex hrange hmoves hmax hsecond'
  exact ⟨disjunction, i, j, ⟨n, ns, hcites, hdisj⟩, hr, ⟨first, second, hfirst, hsecond, hf⟩,
    branchStates_of_reindex hrange hmoves hσ h₁, branchStates_of_reindex hrange hmoves hσ h₂⟩

theorem problem?_of_reindex (hσ : StrictMono σ)
    (h : (l.reindex σ).problem? lines' = .ok none) : l.problem? lines = .ok none := by
  rw [Line.problem?] at h ⊢
  rw [Line.reindex_rule] at h
  generalize l.rule = rule at h ⊢
  cases rule with
  | assumption | conditionalHypothesis => simpa [assumptionProblem?, Line.reindex] using h
  | modusPonens | modusTollens | conjElim | conjIntro | disjIntro | doubleNegation
  | disjHypothesis => exact citedProblem?_of_reindex hrange hmoves h
  | disjElim =>
    obtain ⟨disjunction', i', j', hends⟩ := disjElimProblem?_eq_ok_none_iff.mp h
    exact disjElimProblem?_eq_ok_none_iff.mpr (hends.of_reindex hrange hmoves hσ)
  | conditionalProof => exact conditionalProblem?_of_reindex hrange hmoves h
  | reductio => rfl

/-- **A line that is justified once it is renamed was justified.** -/
theorem Justified.of_reindex (hσ : StrictMono σ) (hnumber : l.number = lines.length)
    (h : Justified lines' (l.reindex σ)) : Justified lines l where
  number := hnumber
  backward := hrange
  supported := h.supported
  step := problem?_of_reindex hrange hmoves hσ h.step
  rests := by
    obtain ⟨s, hs⟩ := exists_expectedRests hrange
    have himage := Except.ok.inj (h.rests.symm.trans (expectedRests_reindex hmoves hs))
    rw [hs, IndexSet.image_injective hσ.injective himage]

end Renamed

/-! ### Splicing -/

variable {base first second : List Line}

/-- A continuation that is sound behind other lines is sound without them. -/
theorem Sound.of_append_renumber
    (h : Sound (base ++ first ++ second.map (Line.renumber first.length base.length))) :
    Sound (base ++ second) := by
  -- line by line from the front, as in `Sound.append_renumber`
  induction second using List.reverseRecOn with
  | nil => simpa using h.of_append.of_append
  | append_singleton before k ih =>
    rw [List.map_append, ← List.append_assoc, List.map_singleton, sound_append_singleton] at h
    obtain ⟨hspliced, hk⟩ := h
    have hbefore := ih hspliced
    have hnumber : k.number = (base ++ before).length := by
      have hmoved : k.number + first.length = _ := hk.number
      simp only [List.length_append, List.length_map] at hmoved ⊢
      omega
    rw [Line.renumber_eq_reindex (by simp [hnumber])] at hk
    -- no index of the renumbered line lies among the lines put in between
    have hrange : ∀ n ∈ k.cites, 0 ≤ n ∧ n < ((base ++ before).length : Int) := by
      intro n hn
      have hshift := hk.backward _ (List.mem_map_of_mem hn)
      rw [Line.shift] at hshift
      simp only [List.length_append, List.length_map] at hshift ⊢
      split at hshift
      · omega
      · omega
    rw [← List.append_assoc, sound_append_singleton]
    exact ⟨hbefore, hk.of_reindex hrange (moves_splice hbefore hrange)
      (Line.shift_strictMono _ (Int.natCast_nonneg _)) hnumber⟩

/-- **Splicing is safe, and hides nothing.**  Behind `base` and `first`, the
renumbered lines of `second` are sound exactly when `first` and `second` are
each a sound continuation of `base`. -/
theorem spliced_sound_iff (base first second : List Line) :
    Sound (base ++ first ++ second.map (Line.renumber first.length base.length)) ↔
      Sound (base ++ first) ∧ Sound (base ++ second) := by
  constructor
  · intro h
    exact ⟨h.of_append, h.of_append_renumber⟩
  · rintro ⟨hfirst, hsecond⟩
    exact hfirst.append_renumber hsecond

-- a case analysis whose first branch stands in `base` and whose second is spliced
example :
    Sound
      ([⟨0, .disj (.var "P") (.var "P"), .assumption, .ofList [0], []⟩,
        ⟨1, .var "P", .disjHypothesis, .ofList [1], [0]⟩]
        ++ [⟨2, .neg (.neg (.var "P")), .doubleNegation, .ofList [1], [1]⟩]
        ++ [⟨2, .var "P", .disjHypothesis, .ofList [2], [0]⟩,
            ⟨3, .var "P", .disjElim, .ofList [0, 1, 2], [0, 1, 2]⟩].map (Line.renumber 1 2)) := by
  decide

end NaturalDeduction
