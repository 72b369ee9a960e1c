/-
Moving layouts.

A layout is about places, and a part of a sequence that is put elsewhere keeps
its layout if its lines go on citing the same lines (`Layout.move`).  Two such
moves come up: lines are put behind a sequence (`moved_append`), and of two
continuations of the same lines the second is put behind the first and
renumbered (`moved_splice`).
-/
import NaturalDeduction.Proofs.Line.Layout

namespace NaturalDeduction

namespace Line

variable {lines lines' : List Line} {l : Line} {V V' : Set Nat} {b c s t : Nat}

/-- The lines before `t` stand in another sequence, each at the place that `σ`
gives it.  Those from `s` on have moved by `d` and cite what they cited where it
stands now. -/
structure Moved (lines lines' : List Line) (σ : Nat → Nat) (d s t : Nat) : Prop where
  place : ∀ j, s ≤ j → σ j = j + d
  line : ∀ j l, j < t → lines[j]? = some l →
    ∃ l', lines'[σ j]? = some l' ∧ l'.rule = l.rule ∧ l'.formula = l.formula ∧
      (s ≤ j → ∀ ps : List Nat, l.cites = ps.map Nat.cast → l'.cites = (ps.map σ).map Nat.cast)

namespace Moved

variable {σ : Nat → Nat} {d s₀ t₀ j : Nat}

/-- What a line of the moved part has become. -/
theorem get (h : Moved lines lines' σ d s₀ t₀) (hs : s₀ ≤ j) (ht : j < t₀)
    (hl : lines[j]? = some l) :
    ∃ l', lines'[j + d]? = some l' ∧ l'.rule = l.rule ∧ l'.formula = l.formula ∧
      ∀ ps : List Nat, l.cites = ps.map Nat.cast → l'.cites = (ps.map σ).map Nat.cast := by
  obtain ⟨l', hl', hrule, hformula, hcites⟩ := h.line j l ht hl
  rw [h.place j hs] at hl'
  exact ⟨l', hl', hrule, hformula, hcites hs⟩

/-- What is visible to the moved part stays visible. -/
theorem visible (h : Moved lines lines' σ d s₀ t₀) (hV : ∀ i ∈ V, σ i ∈ V') (hs : s₀ ≤ s) :
    ∀ i ∈ V ∪ Set.Ico s t, σ i ∈ V' ∪ Set.Ico (s + d) (t + d) := by
  rintro i (hi | ⟨hsi, hit⟩)
  · exact .inl (hV i hi)
  · refine .inr ?_
    rw [h.place i (hs.trans hsi)]
    exact ⟨by omega, by omega⟩

theorem steps (h : Moved lines lines' σ d s₀ t₀) (hV : ∀ i ∈ V, σ i ∈ V') (hs : s₀ ≤ s)
    (ht : t ≤ t₀) (hsteps : Steps lines V s t) : Steps lines' V' (s + d) (t + d) := by
  refine ⟨by have := hsteps.le; omega, fun j hsj hjt => ?_⟩
  obtain ⟨j, rfl⟩ : ∃ k, j = k + d := ⟨j - d, by omega⟩
  obtain ⟨l, hl, hopens, hcloses, hcites⟩ := hsteps.line j (by omega) (by omega)
  obtain ⟨l', hl', hrule, -, hcites'⟩ := h.get (by omega) (by omega) hl
  rw [← hrule] at hopens hcloses
  refine ⟨l', hl', hopens, hcloses, ?_⟩
  obtain ⟨ps, hps, hmem⟩ := citesIn_iff.mp hcites
  refine citesIn_iff.mpr ⟨ps.map σ, hcites' ps hps, fun i hi => ?_⟩
  obtain ⟨k, hk, rfl⟩ := List.mem_map.mp hi
  exact h.visible hV hs k (hmem k hk)

theorem ends {opener : Rule} {earlier : List Nat} (h : Moved lines lines' σ d s₀ t₀)
    (hV : ∀ i ∈ V, σ i ∈ V') (hlt : ∀ i ∈ V, i < t₀) (hs : s₀ ≤ b) (hbc : b ≤ c) (ht : c < t₀)
    (hends : Ends lines V b c opener earlier) :
    Ends lines' V' (b + d) (c + d) opener (earlier.map σ) := by
  refine ⟨?_, by simpa using hends.few, fun i hi => ?_⟩
  · obtain ⟨l, hl, hopener, hcites⟩ := hends.line
    obtain ⟨l', hl', hrule, -, hcites'⟩ := h.get (by omega) ht hl
    refine ⟨l', hl', by rw [hrule]; exact hopener, ?_⟩
    have hrange : (List.range' b (c - b)).map σ = List.range' (b + d) (c + d - (b + d)) := by
      rw [List.map_congr_left fun j hj => h.place j (by rw [List.mem_range'_1] at hj; omega),
        Nat.add_sub_add_right, Nat.add_comm b d, List.range'_eq_map_range, List.range'_eq_map_range,
        List.map_map]
      exact List.map_congr_left fun j _ => by simp only [Function.comp_apply]; omega
    rw [hcites' _ hcites, List.map_append, hrange]
  · obtain ⟨k, hk, rfl⟩ := List.mem_map.mp hi
    obtain ⟨hkV, l, hl, hne⟩ := hends.visible k hk
    obtain ⟨l', hl', hrule, -, -⟩ := h.line k l (hlt k hkV) hl
    rw [← hrule] at hne
    exact ⟨hV k hkV, l', hl', hne⟩

/-- A line of the moved part that is not of a rule has not become one. -/
theorem rule_ne {rule : Rule} (h : Moved lines lines' σ d s₀ t₀) (hs : s₀ ≤ j) (ht : j < t₀)
    (hline : ∃ k, lines[j]? = some k ∧ k.rule ≠ rule) :
    ∃ k, lines'[j + d]? = some k ∧ k.rule ≠ rule := by
  obtain ⟨k, hk, hne⟩ := hline
  obtain ⟨k', hk', hrule, -⟩ := h.get hs ht hk
  rw [← hrule] at hne
  exact ⟨k', hk', hne⟩

theorem blockAt {branches : List (Nat × Nat)} (h : Moved lines lines' σ d s₀ t₀)
    (hV : ∀ i ∈ V, σ i ∈ V') (hlt : ∀ i ∈ V, i < t₀) (hs : s₀ ≤ b) (ht : c < t₀)
    (hblock : BlockAt lines V b c branches) :
    BlockAt lines' V' (b + d) (c + d) (branches.map fun (p, q) => (p + d, q + d)) := by
  have hbc := hblock.lt
  cases hblock with
  | conditional _ hh hrule hcites hends hquiet =>
    obtain ⟨k', hk', hrule', -, hcites'⟩ := h.get hs (by omega) hh
    refine .conditional (by omega) hk' (hrule'.trans hrule) (hcites' [] hcites)
      (h.ends hV hlt hs hbc.le ht hends) ?_
    intro j hbj hjc
    obtain ⟨j, rfl⟩ : ∃ k, j = k + d := ⟨j - d, by omega⟩
    exact h.rule_ne (by omega) (by omega) (hquiet j (by omega) (by omega))
  | @disjElim i m e h₁ h₂ hbm hmc he hf hh₁ hrule₁ hcites₁ hh₂ hrule₂ hcites₂ hends hquiet =>
    have hi := (hends.visible i (by simp)).1
    obtain ⟨e', he', -, hf', -⟩ := h.line i e (hlt i hi) he
    obtain ⟨k₁, hk₁, hrule₁', hf₁, hcites₁'⟩ := h.get hs (by omega) hh₁
    obtain ⟨k₂, hk₂, hrule₂', hf₂, hcites₂'⟩ := h.get (by omega) (by omega) hh₂
    refine .disjElim (by omega) (by omega) he' ?_ hk₁ (hrule₁'.trans hrule₁) (hcites₁' [i] hcites₁) hk₂
      (hrule₂'.trans hrule₂) (hcites₂' [i] hcites₂) (h.ends hV hlt hs hbc.le ht hends) ?_
    · rw [hf', hf, hf₁, hf₂]
    · intro j hbj hjc hjm
      obtain ⟨j, rfl⟩ : ∃ k, j = k + d := ⟨j - d, by omega⟩
      exact h.rule_ne (by omega) (by omega) (hquiet j (by omega) (by omega) (by omega))

end Moved

/-- **A layout that moves as a whole stays a layout.** -/
theorem Layout.move {σ : Nat → Nat} {d s₀ t₀ : Nat} (h : Layout lines V s t)
    (hmoved : Moved lines lines' σ d s₀ t₀) (hV : ∀ i ∈ V, σ i ∈ V') (hsees : V ⊆ Set.Iio s)
    (hs : s₀ ≤ s) (ht : t ≤ t₀) : Layout lines' V' (s + d) (t + d) := by
  induction h generalizing V' with
  | steps h => exact .steps (hmoved.steps hV hs ht h)
  | @block V s b c branches hsteps hblock hinside ih =>
    have hsb := hsteps.le
    have hbc := hblock.lt
    have hW := visible_block hsees hsb
    have hV' := hmoved.visible (t := b) hV hs
    rw [Nat.add_right_comm]
    refine .block (hmoved.steps hV hs (by omega) hsteps)
      (hmoved.blockAt hV' (fun i hi => (hW hi).trans (by omega)) (by omega) (by omega) hblock) ?_
    intro p' q' hpq'
    obtain ⟨⟨p, q⟩, hpq, heq⟩ := List.mem_map.mp hpq'
    obtain ⟨rfl, rfl⟩ := Prod.mk.inj heq
    have hbounds := hblock.bounds hpq
    rw [Nat.add_right_comm]
    refine ih p q hpq ?_ (visible_inside hW hbounds.1) (by omega) (by omega)
    rintro i (hi | rfl)
    · exact .inl (hV' i hi)
    · exact .inr (hmoved.place i (by omega))

/-! ### Two moves -/

/-- Lines added behind leave the lines before them where they are. -/
theorem moved_append (lines more : List Line) (s : Nat) :
    Moved lines (lines ++ more) id 0 s lines.length where
  place _ _ := rfl
  line j l ht hl := by
    refine ⟨l, ?_, rfl, rfl, fun _ ps hps => ?_⟩
    · rw [id, List.getElem?_append_left ht]
      exact hl
    · rw [List.map_id, hps]

theorem Steps.append (h : Steps lines V s t) (ht : t ≤ lines.length) (more : List Line) :
    Steps (lines ++ more) V s t :=
  (moved_append lines more s).steps (fun _ hi => hi) (Nat.le_refl s) ht h

theorem Layout.append (h : Layout lines V s t) (hsees : V ⊆ Set.Iio s) (ht : t ≤ lines.length)
    (more : List Line) : Layout (lines ++ more) V s t :=
  h.move (moved_append lines more s) (fun _ hi => hi) hsees (Nat.le_refl s) ht

/-- The second of two continuations moves behind the first. -/
theorem moved_splice (base first second more : List Line) :
    Moved (base ++ second)
      (base ++ first ++ second.map (renumber first.length base.length) ++ more)
      (fun j => if base.length ≤ j then j + first.length else j) first.length base.length
      (base ++ second).length where
  place _ hj := if_pos hj
  line j l ht hl := by
    rcases Nat.lt_or_ge j base.length with hj | hj
    · refine ⟨l, ?_, rfl, rfl, fun hle => absurd hle (by omega)⟩
      rw [List.getElem?_append_left hj] at hl
      rw [if_neg (by omega), List.append_assoc, List.append_assoc, List.getElem?_append_left hj]
      exact hl
    · rw [List.getElem?_append_right hj] at hl
      have hlt := (List.getElem?_eq_some_iff.mp hl).1
      refine ⟨l.renumber first.length base.length, ?_, rfl, rfl, fun _ ps hps => ?_⟩
      · have hplace : j + first.length - (base ++ first).length = j - base.length := by
          rw [List.length_append]
          omega
        rw [if_pos hj, List.append_assoc _ _ more, List.getElem?_append_right (by simp; omega),
          hplace, List.getElem?_append_left (by simpa using hlt), List.getElem?_map, hl]
        rfl
      · rw [renumber, hps, List.map_map, List.map_map]
        refine List.map_congr_left fun i _ => ?_
        simp only [Function.comp_apply]
        split <;> split <;> omega

end Line

end NaturalDeduction
