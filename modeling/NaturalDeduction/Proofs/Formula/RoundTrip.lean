/-
Printing and reading back.

What the printer writes for a formula is an operand of the grammar: a letter,
a negated operand or a pair of brackets.  So its tokens are the same wherever
it stands, and they derive the formula (`Written`).  This takes that every
variable is named by a capital letter.

Other names never come back.  The grammar makes variables of letters only
(`Derives.names_letters`), so whatever the text of such a formula is read as,
it is not the formula.

Main result: `read_render_iff`.
-/
import NaturalDeduction.Formula.Printer
import NaturalDeduction.Proofs.Formula.Grammar

namespace NaturalDeduction

namespace Formula

/-- A name that can be read: one capital letter. -/
def IsLetter (name : String) : Prop :=
  ∃ c : Char, ('A' ≤ c ∧ c ≤ 'Z') ∧ name = c.toString

/-! ### Printed formulas -/

/-- The text is an operand with the formula `f`: its tokens derive `f` and do
not depend on what follows the text. -/
def Written (text : List Char) (f : Formula) : Prop :=
  ∃ ts, Derives .operand ts f ∧ ∀ rest, tokens? (text ++ rest) = (tokens? rest).map (ts ++ ·)

/-- Any token but a dash is the same whatever follows it. -/
theorem tokens?_char {c : Char} {t : Token} (hc : Token.ofChar? c = some t) (hdash : c ≠ '-')
    (rest : List Char) : tokens? (c :: rest) = (tokens? rest).map (t :: ·) := by
  have hblank : c ≠ ' ' := by
    rintro rfl
    cases hc
  rw [tokens?_cons hblank fun h => absurd h hdash, hc]
  rfl

theorem written_letter (l : Letter) : Written [l.1] (var l.name) := by
  refine ⟨[.letter l], .letter l, fun rest => ?_⟩
  refine tokens?_char (ofChar?_of_letter l.2) ?_ rest
  intro hdash
  exact absurd (hdash ▸ l.2) (by decide)

theorem Written.neg {text : List Char} {a : Formula} (h : Written text a) :
    Written ('~' :: text) (.neg a) := by
  obtain ⟨ts, ha, htokens⟩ := h
  refine ⟨.negation :: ts, .neg ha, fun rest => ?_⟩
  rw [List.cons_append, tokens?_char (t := .negation) rfl (by decide), htokens, Option.map_map]
  rfl

/-- Two operands in brackets with the sign of a connective between them. -/
theorem Written.join {text₁ text₂ : List Char} {a b : Formula} (op : Connective)
    (sign : List Char)
    (hsign : ∀ rest, tokens? (sign ++ rest) = (tokens? rest).map (.connective op :: ·))
    (ha : Written text₁ a) (hb : Written text₂ b) :
    Written ('(' :: (text₁ ++ (sign ++ (text₂ ++ [')'])))) (op.join a b) := by
  obtain ⟨ts, ha, htokens₁⟩ := ha
  obtain ⟨us, hb, htokens₂⟩ := hb
  refine ⟨_, .bracket (.join op ha (.alone hb)), fun rest => ?_⟩
  simp only [List.cons_append, List.append_assoc, List.nil_append]
  rw [tokens?_char (t := .opening) rfl (by decide), htokens₁, hsign, htokens₂,
    tokens?_char (t := .closing) rfl (by decide)]
  simp [Function.comp_def]

/-- What is printed for a formula whose variables are letters. -/
theorem written_render {f : Formula} (h : ∀ name ∈ f.names, IsLetter name) :
    Written f.render.toList f := by
  induction f with
  | var name =>
    obtain ⟨c, hc, rfl⟩ := h name (by simp [names])
    simpa [render, Letter.name] using written_letter ⟨c, hc⟩
  | neg a ih => simpa [render] using (ih h).neg
  | conj a b iha ihb =>
    have ha := iha fun name hname => h name (List.mem_append_left _ hname)
    have hb := ihb fun name hname => h name (List.mem_append_right _ hname)
    simpa [render, Connective.join] using ha.join .conj [' ', '&', ' '] (fun _ => rfl) hb
  | disj a b iha ihb =>
    have ha := iha fun name hname => h name (List.mem_append_left _ hname)
    have hb := ihb fun name hname => h name (List.mem_append_right _ hname)
    simpa [render, Connective.join] using ha.join .disj [' ', 'v', ' '] (fun _ => rfl) hb
  | imp a b iha ihb =>
    have ha := iha fun name hname => h name (List.mem_append_left _ hname)
    have hb := ihb fun name hname => h name (List.mem_append_right _ hname)
    simpa [render, Connective.join] using ha.join .imp [' ', '-', '>', ' '] (fun _ => rfl) hb

/-! ### Names that are read -/

theorem Connective.names_join (op : Connective) (a b : Formula) :
    (op.join a b).names = a.names ++ b.names := by
  cases op <;> rfl

theorem Derives.names_letters {s : Nonterminal} {ts : List Token} {f : Formula}
    (h : Derives s ts f) : ∀ name ∈ f.names, IsLetter name := by
  induction h with
  | alone _ ih | neg _ ih | bracket _ ih => exact ih
  | join op _ _ iha ihb =>
    intro name hname
    rw [op.names_join, List.mem_append] at hname
    exact hname.elim (iha name) (ihb name)
  | letter l =>
    intro name hname
    exact ⟨l.1, l.2, List.mem_singleton.mp hname⟩

theorem names_letters_of_read {text : String} {f : Formula} (h : read text = .ok f) :
    ∀ name ∈ f.names, IsLetter name := by
  obtain ⟨ts, -, hf⟩ := read_eq_ok_iff.mp h
  exact hf.names_letters

theorem read_render {f : Formula} (h : ∀ name ∈ f.names, IsLetter name) :
    read f.render = .ok f := by
  obtain ⟨ts, hf, htokens⟩ := written_render h
  refine read_eq_ok_iff.mpr ⟨ts, ?_, .alone hf⟩
  simpa [tokens?] using htokens []

end Formula

/-- **What is printed can be read back exactly when all variables are letters.**
So what was read once is read again from its printed form. -/
theorem read_render_iff :
    (∀ f : Formula, Formula.read f.render = .ok f ↔ ∀ name ∈ f.names, Formula.IsLetter name) ∧
    ∀ (text : String) (f : Formula), Formula.read text = .ok f → Formula.read f.render = .ok f := by
  refine ⟨fun f => ⟨Formula.names_letters_of_read, Formula.read_render⟩, fun text f h => ?_⟩
  exact Formula.read_render (Formula.names_letters_of_read h)

/-- A text with both signs of negation and of implication and more blanks and
brackets than its formula is printed with. -/
theorem read_render_signs :
    Formula.read " -~A>((B) | C)" = .ok
      (.imp (.neg (.neg (.var "A"))) (.disj (.var "B") (.var "C"))) ∧
    Formula.read (Formula.imp (.neg (.neg (.var "A"))) (.disj (.var "B") (.var "C"))).render = .ok
      (.imp (.neg (.neg (.var "A"))) (.disj (.var "B") (.var "C"))) := by
  have hread : Formula.read " -~A>((B) | C)" = .ok
      (.imp (.neg (.neg (.var "A"))) (.disj (.var "B") (.var "C"))) := by
    decide +kernel
  exact ⟨hread, read_render_iff.2 _ _ hread⟩

end NaturalDeduction
