/-
The rules behind the steps that add one line.

`Drafted lines vocabulary d` lists the rules: it says from which lines and by
which rule a draft comes.  The drafts that the search tries are exactly these
(`mem_drafts_iff`).  Forgetting numbers and citations leaves a relation between
formulas, `OneStep fs goal f`, which depends on `fs` only through its members
(`OneStep.mono`).

A draft becomes a line once it is known what the lines it cites rest on;
`IsStep lines goal l` says that `l` is such a line.  Lines that are numbered by
their places can be looked up by their numbers, so on them every draft becomes
a line (`Drafted.exists_toLine`).
-/
import NaturalDeduction.Search.Steps
import NaturalDeduction.Proofs.Line.Lookup

namespace NaturalDeduction

/-! ### The rules on lines -/

/-- The drafts that rules give from the lines and the vocabulary. -/
inductive Drafted (lines : List Line) (vocabulary : List String) : Draft → Prop
  | modusPonens {i j : Line} {a b : Formula} (hi : i ∈ lines) (hj : j ∈ lines)
      (hif : i.formula = .imp a b) (hjf : j.formula = a) :
      Drafted lines vocabulary ⟨b, .modusPonens, [i.number, j.number]⟩
  | modusTollens {i j : Line} {a b : Formula} (hi : i ∈ lines) (hj : j ∈ lines)
      (hif : i.formula = .imp a b) (hjf : j.formula = .neg b) :
      Drafted lines vocabulary ⟨.neg a, .modusTollens, [i.number, j.number]⟩
  | conjLeft {l : Line} {a b : Formula} (hl : l ∈ lines) (hf : l.formula = .conj a b) :
      Drafted lines vocabulary ⟨a, .conjElim, [l.number]⟩
  | conjRight {l : Line} {a b : Formula} (hl : l ∈ lines) (hf : l.formula = .conj a b) :
      Drafted lines vocabulary ⟨b, .conjElim, [l.number]⟩
  | conjIntro {i j : Line} (hi : i ∈ lines) (hj : j ∈ lines) :
      Drafted lines vocabulary
        ⟨.conj i.formula j.formula, .conjIntro, [i.number, j.number]⟩
  | disjIntro {i j : Line} (hi : i ∈ lines) (hj : j ∈ lines) :
      Drafted lines vocabulary
        ⟨.disj i.formula j.formula, .disjIntro, [i.number, j.number]⟩
  | disjLeft {l : Line} {name : String} (hl : l ∈ lines) (hname : name ∈ vocabulary) :
      Drafted lines vocabulary ⟨.disj l.formula (.var name), .disjIntro, [l.number]⟩
  | disjRight {l : Line} {name : String} (hl : l ∈ lines) (hname : name ∈ vocabulary) :
      Drafted lines vocabulary ⟨.disj (.var name) l.formula, .disjIntro, [l.number]⟩
  | negElim {l : Line} {a : Formula} (hl : l ∈ lines) (hf : l.formula = .neg (.neg a)) :
      Drafted lines vocabulary ⟨a, .doubleNegation, [l.number]⟩
  | negIntro {l : Line} (hl : l ∈ lines) :
      Drafted lines vocabulary ⟨.neg (.neg l.formula), .doubleNegation, [l.number]⟩

theorem mem_pairs {lines : List Line} {i j : Line} :
    (i, j) ∈ pairs lines ↔ i ∈ lines ∧ j ∈ lines := by
  simp [pairs]

theorem modusPonens?_eq_some_iff {i j : Line} {d : Draft} :
    modusPonens? i j = some d ↔
      ∃ a b, i.formula = .imp a b ∧ j.formula = a ∧
        d = ⟨b, .modusPonens, [i.number, j.number]⟩ := by
  rw [modusPonens?]
  split
  · next a b hi => simp [hi, eq_comm]
  · next hi =>
    simp only [reduceCtorEq, false_iff]
    rintro ⟨a, b, hif, -⟩
    exact hi a b hif

theorem modusTollens?_eq_some_iff {i j : Line} {d : Draft} :
    modusTollens? i j = some d ↔
      ∃ a b, i.formula = .imp a b ∧ j.formula = .neg b ∧
        d = ⟨.neg a, .modusTollens, [i.number, j.number]⟩ := by
  rw [modusTollens?]
  split
  · next a b hi =>
    constructor
    · intro h
      split at h
      · next hj => exact ⟨a, b, hi, hj, (Option.some.inj h).symm⟩
      · cases h
    · rintro ⟨a', b', hi', hj, rfl⟩
      obtain ⟨rfl, rfl⟩ := Formula.imp.inj (hi.symm.trans hi')
      rw [if_pos hj]
  · next hi =>
    simp only [reduceCtorEq, false_iff]
    rintro ⟨a, b, hif, -⟩
    exact hi a b hif

theorem mem_conjElims {l : Line} {d : Draft} :
    d ∈ conjElims l ↔
      ∃ a b, l.formula = .conj a b ∧
        (d = ⟨a, .conjElim, [l.number]⟩ ∨ d = ⟨b, .conjElim, [l.number]⟩) := by
  rw [conjElims]
  split
  · next a b hl => simp [hl]
  · next hl =>
    simp only [List.not_mem_nil, false_iff]
    rintro ⟨a, b, hlf, -⟩
    exact hl a b hlf

theorem doubleNegationElim?_eq_some_iff {l : Line} {d : Draft} :
    doubleNegationElim? l = some d ↔
      ∃ a, l.formula = .neg (.neg a) ∧ d = ⟨a, .doubleNegation, [l.number]⟩ := by
  rw [doubleNegationElim?]
  split
  · next a hl => simp [hl, eq_comm]
  · next hl =>
    simp only [reduceCtorEq, false_iff]
    rintro ⟨a, hlf, -⟩
    exact hl a hlf

/-- **The drafts that are tried are those that the rules give.** -/
theorem mem_drafts_iff {lines : List Line} {vocabulary : List String} {d : Draft} :
    d ∈ drafts lines vocabulary ↔ Drafted lines vocabulary d := by
  simp only [drafts, List.mem_append, List.mem_filterMap, List.mem_flatMap, List.mem_map,
    Prod.exists, mem_pairs, modusPonens?_eq_some_iff, modusTollens?_eq_some_iff, mem_conjElims,
    doubleNegationElim?_eq_some_iff, disjIntrosWith, List.mem_cons, List.not_mem_nil, or_false]
  constructor
  · rintro (((((((⟨i, j, ⟨hi, hj⟩, a, b, hif, hjf, rfl⟩ | ⟨i, j, ⟨hi, hj⟩, a, b, hif, hjf, rfl⟩)
      | ⟨l, hl, a, b, hf, rfl | rfl⟩) | ⟨i, j, ⟨hi, hj⟩, rfl⟩) | ⟨i, j, ⟨hi, hj⟩, rfl⟩)
      | ⟨l, hl, name, hname, rfl | rfl⟩) | ⟨l, hl, a, hf, rfl⟩) | ⟨l, hl, rfl⟩)
    · exact .modusPonens hi hj hif hjf
    · exact .modusTollens hi hj hif hjf
    · exact .conjLeft hl hf
    · exact .conjRight hl hf
    · exact .conjIntro hi hj
    · exact .disjIntro hi hj
    · exact .disjLeft hl hname
    · exact .disjRight hl hname
    · exact .negElim hl hf
    · exact .negIntro hl
  · intro h
    cases h with
    | modusPonens hi hj hif hjf =>
      exact .inl <| .inl <| .inl <| .inl <| .inl <| .inl <| .inl
        ⟨_, _, ⟨hi, hj⟩, _, _, hif, hjf, rfl⟩
    | modusTollens hi hj hif hjf =>
      exact .inl <| .inl <| .inl <| .inl <| .inl <| .inl <| .inr
        ⟨_, _, ⟨hi, hj⟩, _, _, hif, hjf, rfl⟩
    | conjLeft hl hf =>
      exact .inl <| .inl <| .inl <| .inl <| .inl <| .inr ⟨_, hl, _, _, hf, .inl rfl⟩
    | conjRight hl hf =>
      exact .inl <| .inl <| .inl <| .inl <| .inl <| .inr ⟨_, hl, _, _, hf, .inr rfl⟩
    | conjIntro hi hj => exact .inl <| .inl <| .inl <| .inl <| .inr ⟨_, _, ⟨hi, hj⟩, rfl⟩
    | disjIntro hi hj => exact .inl <| .inl <| .inl <| .inr ⟨_, _, ⟨hi, hj⟩, rfl⟩
    | disjLeft hl hname => exact .inl <| .inl <| .inr ⟨_, hl, _, hname, .inl rfl⟩
    | disjRight hl hname => exact .inl <| .inl <| .inr ⟨_, hl, _, hname, .inr rfl⟩
    | negElim hl hf => exact .inl <| .inr ⟨_, hl, _, hf, rfl⟩
    | negIntro hl => exact .inr ⟨_, hl, rfl⟩

theorem Drafted.cites_lines {lines : List Line} {vocabulary : List String} {d : Draft}
    (h : Drafted lines vocabulary d) :
    ∃ cited : List Line, (∀ l ∈ cited, l ∈ lines) ∧ d.cites = cited.map (·.number) := by
  cases h with
  | @modusPonens i j _ _ hi hj | @modusTollens i j _ _ hi hj | @conjIntro i j hi hj
  | @disjIntro i j hi hj => exact ⟨[i, j], by simp [hi, hj], rfl⟩
  | @conjLeft l _ _ hl | @conjRight l _ _ hl | @disjLeft l _ hl | @disjRight l _ hl
  | @negElim l _ hl | @negIntro l hl => exact ⟨[l], by simp [hl], rfl⟩

/-- A step that adds one line neither opens nor closes a block. -/
theorem Drafted.rule_mem {lines : List Line} {vocabulary : List String} {d : Draft}
    (h : Drafted lines vocabulary d) :
    d.rule ∈ [Rule.modusPonens, .modusTollens, .conjElim, .conjIntro, .disjIntro,
      .doubleNegation] := by
  cases h <;> simp

/-- Nor does its line rest on itself. -/
theorem Rule.isAssumed_of_single {r : Rule}
    (h : r ∈ [Rule.modusPonens, .modusTollens, .conjElim, .conjIntro, .disjIntro,
      .doubleNegation]) : r.isAssumed = false := by
  simp only [List.mem_cons, List.not_mem_nil, or_false] at h
  rcases h with rfl | rfl | rfl | rfl | rfl | rfl <;> rfl

/-! ### The rules on formulas -/

/-- The names that a search for `goal` from the formulas knows of. -/
def Occurs (fs : List Formula) (goal : Formula) (name : String) : Prop :=
  (∃ f ∈ fs, name ∈ f.names) ∨ name ∈ goal.names

/-- What follows from formulas by one rule that adds one line.  Of the goal
only its names matter: a disjunction may be introduced with any of them. -/
inductive OneStep (fs : List Formula) (goal : Formula) : Formula → Prop
  | modusPonens {a b : Formula} (hab : .imp a b ∈ fs) (ha : a ∈ fs) : OneStep fs goal b
  | modusTollens {a b : Formula} (hab : .imp a b ∈ fs) (hb : .neg b ∈ fs) :
      OneStep fs goal (.neg a)
  | conjLeft {a b : Formula} (hab : .conj a b ∈ fs) : OneStep fs goal a
  | conjRight {a b : Formula} (hab : .conj a b ∈ fs) : OneStep fs goal b
  | conjIntro {a b : Formula} (ha : a ∈ fs) (hb : b ∈ fs) : OneStep fs goal (.conj a b)
  | disjIntro {a b : Formula} (ha : a ∈ fs) (hb : b ∈ fs) : OneStep fs goal (.disj a b)
  | disjLeft {a : Formula} {name : String} (ha : a ∈ fs) (hname : Occurs fs goal name) :
      OneStep fs goal (.disj a (.var name))
  | disjRight {a : Formula} {name : String} (ha : a ∈ fs) (hname : Occurs fs goal name) :
      OneStep fs goal (.disj (.var name) a)
  | negElim {a : Formula} (ha : .neg (.neg a) ∈ fs) : OneStep fs goal a
  | negIntro {a : Formula} (ha : a ∈ fs) : OneStep fs goal (.neg (.neg a))

theorem Occurs.mono {fs gs : List Formula} {goal : Formula} {name : String}
    (hsub : ∀ f ∈ fs, f ∈ gs) (h : Occurs fs goal name) : Occurs gs goal name := by
  rcases h with ⟨f, hf, hname⟩ | hname
  · exact .inl ⟨f, hsub f hf, hname⟩
  · exact .inr hname

theorem OneStep.mono {fs gs : List Formula} {goal f : Formula}
    (hsub : ∀ f ∈ fs, f ∈ gs) (h : OneStep fs goal f) : OneStep gs goal f := by
  cases h with
  | modusPonens hab ha => exact .modusPonens (hsub _ hab) (hsub _ ha)
  | modusTollens hab hb => exact .modusTollens (hsub _ hab) (hsub _ hb)
  | conjLeft hab => exact .conjLeft (hsub _ hab)
  | conjRight hab => exact .conjRight (hsub _ hab)
  | conjIntro ha hb => exact .conjIntro (hsub _ ha) (hsub _ hb)
  | disjIntro ha hb => exact .disjIntro (hsub _ ha) (hsub _ hb)
  | disjLeft ha hname => exact .disjLeft (hsub _ ha) (hname.mono hsub)
  | disjRight ha hname => exact .disjRight (hsub _ ha) (hname.mono hsub)
  | negElim ha => exact .negElim (hsub _ ha)
  | negIntro ha => exact .negIntro (hsub _ ha)

namespace Node

theorem mem_formulas {lines : List Line} {f : Formula} :
    f ∈ formulas lines ↔ ∃ l ∈ lines, l.formula = f := by
  simp [formulas]

theorem formula_mem_formulas {lines : List Line} {l : Line} (hl : l ∈ lines) :
    l.formula ∈ formulas lines :=
  mem_formulas.mpr ⟨l, hl, rfl⟩

theorem states_eq_true_iff {lines : List Line} {f : Formula} :
    Line.states lines f = true ↔ f ∈ formulas lines := by
  simp [Line.states, formulas]

theorem states_eq_false_iff {lines : List Line} {f : Formula} :
    Line.states lines f = false ↔ f ∉ formulas lines := by
  rw [← states_eq_true_iff, Bool.not_eq_true]

@[simp] theorem formulas_append (lines more : List Line) :
    formulas (lines ++ more) = formulas lines ++ formulas more :=
  List.map_append

end Node

theorem mem_vocabulary {lines : List Line} {goal : Formula} {name : String} :
    name ∈ Line.vocabulary lines goal ↔ Occurs (Node.formulas lines) goal name := by
  simp [Line.vocabulary, Occurs, Node.formulas]

open Node in
theorem Drafted.oneStep {lines : List Line} {goal : Formula} {d : Draft}
    (h : Drafted lines (Line.vocabulary lines goal) d) :
    OneStep (formulas lines) goal d.formula := by
  cases h with
  | modusPonens hi hj hif hjf =>
    exact .modusPonens (mem_formulas.mpr ⟨_, hi, hif⟩) (mem_formulas.mpr ⟨_, hj, hjf⟩)
  | modusTollens hi hj hif hjf =>
    exact .modusTollens (mem_formulas.mpr ⟨_, hi, hif⟩) (mem_formulas.mpr ⟨_, hj, hjf⟩)
  | conjLeft hl hf => exact .conjLeft (mem_formulas.mpr ⟨_, hl, hf⟩)
  | conjRight hl hf => exact .conjRight (mem_formulas.mpr ⟨_, hl, hf⟩)
  | conjIntro hi hj => exact .conjIntro (formula_mem_formulas hi) (formula_mem_formulas hj)
  | disjIntro hi hj => exact .disjIntro (formula_mem_formulas hi) (formula_mem_formulas hj)
  | disjLeft hl hname => exact .disjLeft (formula_mem_formulas hl) (mem_vocabulary.mp hname)
  | disjRight hl hname => exact .disjRight (formula_mem_formulas hl) (mem_vocabulary.mp hname)
  | negElim hl hf => exact .negElim (mem_formulas.mpr ⟨_, hl, hf⟩)
  | negIntro hl => exact .negIntro (formula_mem_formulas hl)

open Node in
theorem OneStep.exists_drafted {lines : List Line} {goal f : Formula}
    (h : OneStep (formulas lines) goal f) :
    ∃ d, Drafted lines (Line.vocabulary lines goal) d ∧ d.formula = f := by
  cases h with
  | modusPonens hab ha =>
    obtain ⟨i, hi, hif⟩ := mem_formulas.mp hab
    obtain ⟨j, hj, hjf⟩ := mem_formulas.mp ha
    exact ⟨_, .modusPonens hi hj hif hjf, rfl⟩
  | modusTollens hab hb =>
    obtain ⟨i, hi, hif⟩ := mem_formulas.mp hab
    obtain ⟨j, hj, hjf⟩ := mem_formulas.mp hb
    exact ⟨_, .modusTollens hi hj hif hjf, rfl⟩
  | conjLeft hab =>
    obtain ⟨l, hl, hf⟩ := mem_formulas.mp hab
    exact ⟨_, .conjLeft hl hf, rfl⟩
  | conjRight hab =>
    obtain ⟨l, hl, hf⟩ := mem_formulas.mp hab
    exact ⟨_, .conjRight hl hf, rfl⟩
  | conjIntro ha hb =>
    obtain ⟨i, hi, rfl⟩ := mem_formulas.mp ha
    obtain ⟨j, hj, rfl⟩ := mem_formulas.mp hb
    exact ⟨_, .conjIntro hi hj, rfl⟩
  | disjIntro ha hb =>
    obtain ⟨i, hi, rfl⟩ := mem_formulas.mp ha
    obtain ⟨j, hj, rfl⟩ := mem_formulas.mp hb
    exact ⟨_, .disjIntro hi hj, rfl⟩
  | disjLeft ha hname =>
    obtain ⟨l, hl, rfl⟩ := mem_formulas.mp ha
    exact ⟨_, .disjLeft hl (mem_vocabulary.mpr hname), rfl⟩
  | disjRight ha hname =>
    obtain ⟨l, hl, rfl⟩ := mem_formulas.mp ha
    exact ⟨_, .disjRight hl (mem_vocabulary.mpr hname), rfl⟩
  | negElim ha =>
    obtain ⟨l, hl, hf⟩ := mem_formulas.mp ha
    exact ⟨_, .negElim hl hf, rfl⟩
  | negIntro ha =>
    obtain ⟨l, hl, rfl⟩ := mem_formulas.mp ha
    exact ⟨_, .negIntro hl, rfl⟩

/-! ### Drafts as lines -/

/-- A line that a rule adds to `lines` in a search for `goal`. -/
def IsStep (lines : List Line) (goal : Formula) (l : Line) : Prop :=
  ∃ d, Drafted lines (Line.vocabulary lines goal) d ∧ d.toLine lines = .ok l

theorem Draft.toLine_eq_ok_iff {lines : List Line} {d : Draft} {l : Line} :
    d.toLine lines = .ok l ↔
      ∃ rests, Line.restsAt lines d.cites = .ok rests ∧
        l = ⟨lines.length, d.formula, d.rule, rests, d.cites⟩ := by
  rw [toLine]
  simp only [bind_eq_ok_iff, pure_eq_ok_iff]

theorem Draft.toExtension_eq_ok_iff {lines : List Line} {d : Draft} {e : Extension} :
    d.toExtension lines = .ok e ↔ ∃ l, d.toLine lines = .ok l ∧ e = .single l := by
  rw [toExtension]
  simp only [bind_eq_ok_iff, pure_eq_ok_iff]

namespace IsStep

variable {lines : List Line} {goal : Formula} {l : Line}

theorem number_eq (h : IsStep lines goal l) : l.number = lines.length := by
  obtain ⟨d, -, hl⟩ := h
  obtain ⟨rests, -, rfl⟩ := Draft.toLine_eq_ok_iff.mp hl
  rfl

theorem oneStep (h : IsStep lines goal l) : OneStep (Node.formulas lines) goal l.formula := by
  obtain ⟨d, hd, hl⟩ := h
  obtain ⟨rests, -, rfl⟩ := Draft.toLine_eq_ok_iff.mp hl
  exact hd.oneStep

theorem rule_mem (h : IsStep lines goal l) :
    l.rule ∈ [Rule.modusPonens, .modusTollens, .conjElim, .conjIntro, .disjIntro,
      .doubleNegation] := by
  obtain ⟨d, hd, hl⟩ := h
  obtain ⟨rests, -, rfl⟩ := Draft.toLine_eq_ok_iff.mp hl
  exact hd.rule_mem

end IsStep

/-- On lines that are numbered by their places every draft becomes a line. -/
theorem Drafted.exists_toLine {lines : List Line} {vocabulary : List String} {d : Draft}
    (hnum : Line.WellNumbered lines) (h : Drafted lines vocabulary d) :
    ∃ l, d.toLine lines = .ok l := by
  obtain ⟨cited, hcited, hcites⟩ := h.cites_lines
  refine ⟨_, Draft.toLine_eq_ok_iff.mpr ⟨Line.restsOf cited, ?_, rfl⟩⟩
  rw [Line.restsAt_eq_ok_iff, hcites]
  exact ⟨cited, Line.mapM_get_numbers hnum hcited, rfl⟩

/-- On such lines what follows by one rule is stated by some step. -/
theorem OneStep.exists_isStep {lines : List Line} {goal f : Formula}
    (hnum : Line.WellNumbered lines) (h : OneStep (Node.formulas lines) goal f) :
    ∃ l, IsStep lines goal l ∧ l.formula = f := by
  obtain ⟨d, hd, rfl⟩ := h.exists_drafted
  obtain ⟨l, hl⟩ := hd.exists_toLine hnum
  refine ⟨l, ⟨d, hd, hl⟩, ?_⟩
  obtain ⟨rests, -, rfl⟩ := Draft.toLine_eq_ok_iff.mp hl
  rfl

namespace Node

/-- The extensions by one line are the steps that rules add. -/
theorem mem_singleSteps_iff {n : Node} {es : List Extension} {e : Extension}
    (h : n.singleSteps = .ok es) :
    e ∈ es ↔ ∃ l, IsStep n.lines n.goal l ∧ e = .single l := by
  constructor
  · intro he
    obtain ⟨d, hd, hde⟩ := exists_of_mem_mapM h he
    obtain ⟨l, hl, rfl⟩ := Draft.toExtension_eq_ok_iff.mp hde
    exact ⟨l, ⟨d, mem_drafts_iff.mp hd, hl⟩, rfl⟩
  · rintro ⟨l, ⟨d, hd, hl⟩, rfl⟩
    obtain ⟨e, he, hde⟩ := exists_mem_of_mapM h (mem_drafts_iff.mpr hd)
    obtain ⟨l', hl', rfl⟩ := Draft.toExtension_eq_ok_iff.mp hde
    obtain rfl := Except.ok.inj (hl.symm.trans hl')
    exact he

theorem exists_singleSteps {n : Node} (hnum : Line.WellNumbered n.lines) :
    ∃ es, n.singleSteps = .ok es := by
  apply exists_mapM_eq_ok
  intro d hd
  obtain ⟨l, hl⟩ := (mem_drafts_iff.mp hd).exists_toLine hnum
  exact ⟨.single l, Draft.toExtension_eq_ok_iff.mpr ⟨l, hl, rfl⟩⟩

end Node

end NaturalDeduction
