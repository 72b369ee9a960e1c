/-
Entailment and the truth table.

`Entails fs f` says that every valuation that makes all of `fs` true makes `f`
true.  The truth table decides it: with some names already assigned and the
others still to be gone through, it asks about exactly those valuations that
agree with the assignment on the names that are settled
(`allRespect_eq_ok`).  No name is ever missing, since all names of the
formulas are gone through.

Main result: `entails_decides`.
-/
import NaturalDeduction.Formula.Semantics
import NaturalDeduction.Proofs.Faults

namespace NaturalDeduction

namespace Formula

/-- Every valuation that makes the formulas true makes `f` true. -/
def Entails (fs : List Formula) (f : Formula) : Prop :=
  ∀ v : String → Bool, (∀ g ∈ fs, g.holds v = true) → f.holds v = true

theorem Entails.of_mem {fs : List Formula} {f : Formula} (h : f ∈ fs) : Entails fs f :=
  fun _ hv => hv f h

/-- What is entailed by entailed formulas is entailed. -/
theorem Entails.trans {fs gs : List Formula} {f : Formula} (h : ∀ g ∈ gs, Entails fs g)
    (hf : Entails gs f) : Entails fs f :=
  fun v hv => hf v fun g hg => h g hg v hv

/-! ### Truth of the connectives -/

section Connectives

variable {v : String → Bool} {a b : Formula}

theorem holds_neg : (neg a).holds v = true ↔ ¬ a.holds v = true := by
  simp [holds]

theorem holds_conj : (conj a b).holds v = true ↔ a.holds v = true ∧ b.holds v = true := by
  simp [holds]

theorem holds_disj : (disj a b).holds v = true ↔ a.holds v = true ∨ b.holds v = true := by
  simp [holds]

theorem holds_imp : (imp a b).holds v = true ↔ (a.holds v = true → b.holds v = true) := by
  cases ha : a.holds v <;> simp [holds, ha]

end Connectives

/-! ### Evaluation under an assignment -/

theorem evaluate_eq_ok_holds {env : Assignment} {v : String → Bool} {f : Formula}
    (h : ∀ name ∈ f.names, env.lookup name = some (v name)) :
    f.evaluate env = .ok (f.holds v) := by
  induction f with
  | var name => simp [evaluate, holds, h name (by simp [names])]
  | neg a ih =>
    rw [evaluate, holds, ih h]
    rfl
  | conj a b iha ihb | disj a b iha ihb | imp a b iha ihb =>
    have ha := iha fun name hname => h name (by simp [names, hname])
    have hb := ihb fun name hname => h name (by simp [names, hname])
    rw [evaluate, holds, ha, hb]
    cases a.holds v <;> rfl

theorem allTrue_eq_ok {env : Assignment} {v : String → Bool} {fs : List Formula}
    (h : ∀ f ∈ fs, ∀ name ∈ f.names, env.lookup name = some (v name)) :
    allTrue env fs = .ok (fs.all fun f => f.holds v) := by
  induction fs with
  | nil => rfl
  | cons f fs ih =>
    rw [allTrue, evaluate_eq_ok_holds (h f (by simp)),
      ih fun g hg => h g (List.mem_cons_of_mem f hg), List.all_cons]
    cases f.holds v <;> rfl

theorem respects_eq_ok {env : Assignment} {v : String → Bool} {assumptions : List Formula}
    {conclusion : Formula}
    (h : ∀ f ∈ conclusion :: assumptions, ∀ name ∈ f.names, env.lookup name = some (v name)) :
    respects env assumptions conclusion
      = .ok (!(assumptions.all fun f => f.holds v) || conclusion.holds v) := by
  rw [respects, allTrue_eq_ok fun f hf => h f (List.mem_cons_of_mem conclusion hf),
    evaluate_eq_ok_holds (h conclusion (by simp))]
  cases assumptions.all fun f => f.holds v <;> rfl

/-! ### The truth table -/

/-- A valuation agrees with an assignment on the names that are not still to
be assigned. -/
def Agrees (pending : List String) (env : Assignment) (v : String → Bool) : Prop :=
  ∀ name ∉ pending, ∀ b, env.lookup name = some b → v name = b

theorem lookup_cons_of_ne {name other : String} {b : Bool} {env : Assignment}
    (h : other ≠ name) : List.lookup other ((name, b) :: env) = env.lookup other := by
  rw [List.lookup_cons, beq_false_of_ne h]

theorem Agrees.cons {name : String} {pending : List String} {env : Assignment}
    {v : String → Bool} (h : Agrees (name :: pending) env v) :
    Agrees pending ((name, v name) :: env) v := by
  intro other hother b hb
  by_cases hname : other = name
  · subst hname
    simpa using hb
  · rw [lookup_cons_of_ne hname] at hb
    exact h other (by simp [hname, hother]) b hb

theorem Agrees.of_cons {name : String} {pending : List String} {env : Assignment}
    {v : String → Bool} {b : Bool} (h : Agrees pending ((name, b) :: env) v) :
    Agrees (name :: pending) env v := by
  intro other hother c hc
  obtain ⟨hne, hother⟩ : other ≠ name ∧ other ∉ pending := by simpa using hother
  apply h other hother c
  rwa [lookup_cons_of_ne hne]

/-- The names of the formulas are assigned, or still to be assigned. -/
def Covered (fs : List Formula) (pending : List String) (env : Assignment) : Prop :=
  ∀ f ∈ fs, ∀ name ∈ f.names, name ∈ pending ∨ ∃ b, env.lookup name = some b

theorem Covered.cons {fs : List Formula} {name : String} {pending : List String}
    {env : Assignment} (h : Covered fs (name :: pending) env) (b : Bool) :
    Covered fs pending ((name, b) :: env) := by
  intro f hf other hother
  by_cases hname : other = name
  · exact .inr ⟨b, by simp [hname]⟩
  · rcases h f hf other hother with hmem | hlookup
    · exact .inl (by simpa [hname] using hmem)
    · exact .inr (by rwa [lookup_cons_of_ne hname])

/-- **The truth table decides entailment**, over the valuations that agree
with what is assigned already. -/
theorem allRespect_eq_ok {assumptions : List Formula} {conclusion : Formula}
    {pending : List String} {env : Assignment}
    (h : Covered (conclusion :: assumptions) pending env) :
    ∃ b, allRespect assumptions conclusion pending env = .ok b ∧
      (b = true ↔ ∀ v, Agrees pending env v →
        (∀ f ∈ assumptions, f.holds v = true) → conclusion.holds v = true) := by
  induction pending generalizing env with
  | nil =>
    -- every name is assigned, so all valuations that agree give the same values
    have hlookup : ∀ v, Agrees [] env v → ∀ f ∈ conclusion :: assumptions, ∀ name ∈ f.names,
        env.lookup name = some (v name) := by
      intro v hv f hf name hname
      obtain ⟨b, hb⟩ := (h f hf name hname).resolve_left (by simp)
      rw [hb, hv name (by simp) b hb]
    have hagrees : Agrees [] env fun name => (env.lookup name).getD false := by
      intro name _ b hb
      simp [hb]
    refine ⟨_, respects_eq_ok (hlookup _ hagrees), ?_⟩
    constructor
    · intro hrow v hv hassumptions
      have hsame := (respects_eq_ok (hlookup v hv)).symm.trans (respects_eq_ok (hlookup _ hagrees))
      rw [← Except.ok.inj hsame] at hrow
      have hall : (assumptions.all fun f => f.holds v) = true := List.all_eq_true.mpr hassumptions
      simpa [hall] using hrow
    · intro hrow
      have hcase := hrow _ hagrees
      rw [← List.all_eq_true] at hcase
      simpa [Bool.or_eq_true, imp_iff_not_or] using hcase
  | cons name pending ih =>
    obtain ⟨b₀, h₀, hiff₀⟩ := ih (h.cons false)
    obtain ⟨b₁, h₁, hiff₁⟩ := ih (h.cons true)
    rw [allRespect, h₀]
    -- a valuation makes the next name false or true
    have hsplit : (∀ v, Agrees (name :: pending) env v →
        (∀ f ∈ assumptions, f.holds v = true) → conclusion.holds v = true) ↔
        b₀ = true ∧ b₁ = true := by
      rw [hiff₀, hiff₁]
      constructor
      · intro hall
        exact ⟨fun v hv => hall v hv.of_cons, fun v hv => hall v hv.of_cons⟩
      · rintro ⟨hfalse, htrue⟩ v hv
        have hv' := hv.cons
        rcases hvalue : v name with - | -
        · exact hfalse v (hvalue ▸ hv')
        · exact htrue v (hvalue ▸ hv')
    rw [hsplit]
    cases b₀ with
    | false => exact ⟨false, rfl, by simp⟩
    | true => exact ⟨b₁, h₁, by simp⟩

theorem mem_atoms_iff {fs : List Formula} {name : String} :
    name ∈ atoms fs ↔ ∃ f ∈ fs, name ∈ f.names := by
  simp [atoms]

/-- The table as a whole: it goes through all names, and so through all
valuations. -/
theorem entails_eq_ok (assumptions : List Formula) (conclusion : Formula) :
    ∃ b, entails assumptions conclusion = .ok b ∧ (b = true ↔ Entails assumptions conclusion) := by
  have hcovered : Covered (conclusion :: assumptions) (atoms (assumptions ++ [conclusion])) [] := by
    intro f hf name hname
    refine .inl (mem_atoms_iff.mpr ⟨f, ?_, hname⟩)
    simpa [or_comm] using hf
  obtain ⟨b, hb, hiff⟩ := allRespect_eq_ok hcovered
  refine ⟨b, hb, hiff.trans ⟨fun h v => h v ?_, fun h v _ => h v⟩⟩
  intro name _ c hc
  simp at hc

/-- **The truth table decides entailment.**  Whatever the names in the formulas
are, it gives an answer: yes exactly when every valuation that makes the
assumptions true makes the conclusion true, and no exactly when some valuation
makes them true and the conclusion false. -/
theorem entails_decides (assumptions : List Formula) (conclusion : Formula) :
    (∀ atom, entails assumptions conclusion ≠ .error atom) ∧
    (entails assumptions conclusion = .ok true ↔
      ∀ v : String → Bool, (∀ f ∈ assumptions, f.holds v = true) → conclusion.holds v = true) ∧
    (entails assumptions conclusion = .ok false ↔
      ∃ v : String → Bool, (∀ f ∈ assumptions, f.holds v = true) ∧ conclusion.holds v = false) := by
  obtain ⟨b, hb, hiff⟩ := entails_eq_ok assumptions conclusion
  rw [hb]
  refine ⟨?_, ?_, ?_⟩
  · intro atom h
    cases h
  · rw [Except.ok.injEq]
    exact hiff
  · -- what is not entailed fails under some valuation
    rw [Except.ok.injEq, ← Bool.not_eq_true, hiff]
    simp only [Entails, Classical.not_forall, Bool.not_eq_true, exists_prop]

end Formula

end NaturalDeduction
