/-
The grammar of formulas.

Reading never makes tokens: it looks at characters, cuts brackets out as text
and counts negation signs.  Here the notation is defined the other way, by
tokens and a grammar over them:

    E ::= U | U op E
    U ::= letter | negation U | ( E )

`tokens?` cuts a text into tokens and `Derives` is the grammar.  Main result:
`read_iff_derives`, a text is read as a formula exactly when it consists of
tokens that derive the formula.

The reader stops between characters, so the induction needs the grammar in the
middle of a formula.  `Completes pending ts f` says that the tokens `ts` make
`f` of what is pending, and there is one equation for each token that can come
next.  A bracket is cut out by counting characters.  What a derivation
produces is balanced (`Derives.balanced`), so the cut falls where the bracket
of the grammar ends (`exists_cutBracket`).
-/
import NaturalDeduction.Formula.Reader
import NaturalDeduction.Proofs.Faults

namespace NaturalDeduction

namespace Formula

/-! ### Tokens -/

/-- A letter that names a variable. -/
def Letter := { c : Char // 'A' ≤ c ∧ c ≤ 'Z' }

/-- The name of the variable. -/
def Letter.name (l : Letter) : String := l.1.toString

/-- The binary connectives. -/
inductive Connective where
  | conj
  | disj
  | imp

/-- The formula that a connective makes of its operands. -/
def Connective.join : Connective → Formula → Formula → Formula
  | conj => Formula.conj
  | disj => Formula.disj
  | imp => Formula.imp

/-- What formulas are written with. -/
inductive Token where
  | letter (l : Letter)
  | negation
  | connective (op : Connective)
  | opening
  | closing

/-- The token that a character is on its own. -/
def Token.ofChar? : Char → Option Token
  | '-' | '~' => some .negation
  | '&' => some (.connective .conj)
  | 'v' | '|' => some (.connective .disj)
  | '>' => some (.connective .imp)
  | '(' => some .opening
  | ')' => some .closing
  | c => if h : 'A' ≤ c ∧ c ≤ 'Z' then some (.letter ⟨c, h⟩) else none

/-- The tokens of a text, from left to right.  Blanks are dropped, `->` is one
token, and a text with any other character that is no token has none. -/
def tokens? : List Char → Option (List Token)
  | [] => some []
  | ' ' :: rest => tokens? rest
  | '-' :: '>' :: rest => (tokens? rest).map (.connective .imp :: ·)
  | c :: rest => (Token.ofChar? c).bind fun t => (tokens? rest).map (t :: ·)

-- a dash and a sign of implication are an arrow only side by side
example : tokens? ['-', '>', '-', ' ', '>'] =
    some [.connective .imp, .negation, .connective .imp] := rfl

/-! ### The grammar -/

/-- The nonterminals of the grammar. -/
inductive Nonterminal where
  /-- A chain of operands and connectives. -/
  | chain
  | operand

/-- The tokens derive the formula from the nonterminal. -/
inductive Derives : Nonterminal → List Token → Formula → Prop
  | alone {ts : List Token} {a : Formula} (h : Derives .operand ts a) : Derives .chain ts a
  | join {ts us : List Token} {a b : Formula} (op : Connective) (ha : Derives .operand ts a)
      (hb : Derives .chain us b) : Derives .chain (ts ++ .connective op :: us) (op.join a b)
  | letter (l : Letter) : Derives .operand [.letter l] (var l.name)
  | neg {ts : List Token} {a : Formula} (h : Derives .operand ts a) :
      Derives .operand (.negation :: ts) (neg a)
  | bracket {ts : List Token} {a : Formula} (h : Derives .chain ts a) :
      Derives .operand (.opening :: (ts ++ [.closing])) a

/-! ### The tokens of characters -/

/-- The token of a character agrees with what the reader sees in it. -/
def Sign.Fits (c : Char) (t : Option Token) : Sign → Prop
  | .letter => ∃ h, t = some (.letter ⟨c, h⟩)
  | .negation => t = some .negation
  | .connective join => ∃ op, t = some (.connective op) ∧ join = op.join
  | .opening => t = some .opening
  | .closing => t = some .closing
  | .unknown => t = none

theorem isUpper_iff {c : Char} : c.isUpper = true ↔ 'A' ≤ c ∧ c ≤ 'Z' := by
  show decide (c.val ≥ 'A'.val ∧ c.val ≤ 'Z'.val) = true ↔ _
  exact decide_eq_true_iff

theorem ofChar?_of_letter {c : Char} (h : 'A' ≤ c ∧ c ≤ 'Z') :
    Token.ofChar? c = some (.letter ⟨c, h⟩) := by
  unfold Token.ofChar?
  split
  case h_9 => rw [dif_pos h]
  all_goals exact absurd h (by decide)

/-- A token of its own that is no letter comes from one of a few
characters. -/
theorem ofChar?_cases {c : Char} {t : Token} (h : Token.ofChar? c = some t) :
    (∃ hc, t = .letter ⟨c, hc⟩) ∨
      (c, t) ∈ [('-', .negation), ('~', .negation), ('&', .connective .conj),
        ('v', .connective .disj), ('|', .connective .disj), ('>', .connective .imp),
        ('(', .opening), (')', .closing)] := by
  unfold Token.ofChar? at h
  split at h
  case h_9 =>
    split at h
    · next hc => exact .inl ⟨hc, (Option.some.inj h).symm⟩
    · cases h
  all_goals
    obtain rfl := Option.some.inj h
    simp

theorem fits_of (c : Char) : (Sign.of c).Fits c (Token.ofChar? c) := by
  unfold Sign.of
  by_cases hupper : c.isUpper = true
  · rw [if_pos hupper]
    exact ⟨_, ofChar?_of_letter (isUpper_iff.mp hupper)⟩
  · rw [if_neg hupper]
    split
    case h_9 =>
      show Token.ofChar? c = none
      unfold Token.ofChar?
      split
      case h_9 => exact dif_neg fun h => hupper (isUpper_iff.mpr h)
      all_goals contradiction
    case h_3 => exact ⟨.conj, rfl, rfl⟩
    case h_4 | h_5 => exact ⟨.disj, rfl, rfl⟩
    case h_6 => exact ⟨.imp, rfl, rfl⟩
    all_goals rfl

/-! ### The tokens of texts -/

theorem tokens?_cons {c : Char} {rest : List Char} (hblank : c ≠ ' ')
    (harrow : c = '-' → rest.head? ≠ some '>') :
    tokens? (c :: rest) = (Token.ofChar? c).bind fun t => (tokens? rest).map (t :: ·) := by
  rw [tokens?]
  · exact hblank
  · rintro rest' rfl rfl
    exact harrow rfl rfl

/-- Texts side by side have the tokens of both, unless they meet in an
arrow. -/
theorem tokens?_append {text more : List Char} (hmore : more.head? ≠ some '>') :
    tokens? (text ++ more)
      = (tokens? text).bind fun ts => (tokens? more).map fun us => ts ++ us := by
  fun_induction tokens? text with
  | case1 => simp
  | case2 rest ih => exact ih
  | case3 rest ih =>
    simp only [List.cons_append, tokens?, ih, Option.map_bind, Option.bind_map,
      Function.comp_def, Option.map_map]
  | case4 c rest hblank harrow ih =>
    rw [List.cons_append, tokens?_cons hblank, ih]
    · simp only [Option.map_bind, Option.bind_map, Function.comp_def, Option.map_map,
        List.cons_append, Option.bind_assoc]
    · rintro rfl hhead
      rcases rest with - | ⟨d, rest⟩
      · exact hmore hhead
      · obtain rfl : d = '>' := by simpa using hhead
        exact harrow rest rfl rfl

theorem tokens?_eq_nil {text : List Char} (h : text.all (· = ' ') = true) :
    tokens? text = some [] := by
  induction text with
  | nil => rfl
  | cons c rest ih =>
    simp only [List.all_cons, Bool.and_eq_true, decide_eq_true_eq] at h
    obtain ⟨rfl, hrest⟩ := h
    exact ih hrest

/-! ### Brackets -/

theorem eq_of_cutBracket {depth : Nat} {text inside after : List Char}
    (h : cutBracket depth text = some (inside, after)) : text = inside ++ ')' :: after := by
  fun_induction cutBracket depth text generalizing inside after with
  | case1 => simp at h
  | case2 rest =>
    obtain ⟨rfl, rfl⟩ : [] = inside ∧ rest = after := by simpa using h
    rfl
  | case3 rest depth ih | case4 depth rest ih | case5 depth c rest _ _ _ ih =>
    obtain ⟨⟨inside', after'⟩, hcut, heq⟩ := Option.map_eq_some_iff.mp h
    obtain ⟨rfl, rfl⟩ := Prod.mk.inj heq
    rw [ih hcut]
    rfl

/-- The number of brackets that are open after a token, if it closes none but
those that are open before it. -/
def Token.depthAfter? : Token → Nat → Option Nat
  | .closing, 0 => none
  | .closing, depth + 1 => some depth
  | .opening, depth => some (depth + 1)
  | _, depth => some depth

/-- The tokens close the brackets that are open before them and those that they
open, and no other. -/
inductive Balanced : Nat → List Token → Prop
  | nil : Balanced 0 []
  | cons {depth depth' : Nat} {t : Token} {ts : List Token}
      (ht : t.depthAfter? depth = some depth') (h : Balanced depth' ts) : Balanced depth (t :: ts)

theorem Derives.balanced_append {s : Nonterminal} {ts us : List Token} {a : Formula} {depth : Nat}
    (h : Derives s ts a) (hus : Balanced depth us) : Balanced depth (ts ++ us) := by
  induction h generalizing depth us with
  | alone _ ih => exact ih hus
  | join op _ _ iha ihb =>
    rw [List.append_assoc]
    exact iha (.cons rfl (ihb hus))
  | letter l => exact .cons rfl hus
  | neg _ ih => exact .cons rfl (ih hus)
  | bracket _ ih =>
    rw [List.cons_append, List.append_assoc]
    exact .cons rfl (ih (.cons rfl hus))

/-- What is derived closes the brackets that it opens. -/
theorem Derives.balanced {s : Nonterminal} {ts : List Token} {a : Formula} (h : Derives s ts a) :
    Balanced 0 ts := by
  simpa using h.balanced_append .nil

theorem eq_of_ofChar?_opening {c : Char} (h : Token.ofChar? c = some .opening) : c = '(' := by
  simpa using ofChar?_cases h

theorem eq_of_ofChar?_closing {c : Char} (h : Token.ofChar? c = some .closing) : c = ')' := by
  simpa using ofChar?_cases h

theorem cutBracket_cons {c : Char} {t : Token} {depth depth' : Nat} (rest : List Char)
    (hc : Token.ofChar? c = some t) (ht : t.depthAfter? depth = some depth') :
    cutBracket depth (c :: rest)
      = (cutBracket depth' rest).map fun (inside, after) => (c :: inside, after) := by
  cases t with
  | opening =>
    obtain rfl := eq_of_ofChar?_opening hc
    obtain rfl := Option.some.inj ht
    simp [cutBracket]
  | closing =>
    obtain rfl := eq_of_ofChar?_closing hc
    rcases depth with - | depth
    · cases ht
    · obtain rfl := Option.some.inj ht
      rfl
  | letter l | negation | connective op =>
    obtain rfl := Option.some.inj ht
    have hbracket : c ≠ '(' ∧ c ≠ ')' := by
      constructor <;> rintro rfl <;> cases hc
    rw [cutBracket]
    · exact hbracket.1
    · exact fun _ => hbracket.2
    · exact fun _ _ => hbracket.2

/-- A bracket whose contents are balanced is cut out up to its closing sign. -/
theorem exists_cutBracket {depth : Nat} {text : List Char} {us vs : List Token}
    (htokens : tokens? text = some (us ++ .closing :: vs)) (hus : Balanced depth us) :
    ∃ inside after, cutBracket depth text = some (inside, after) ∧
      tokens? inside = some us ∧ tokens? after = some vs := by
  fun_induction tokens? text generalizing depth us with
  | case1 => simp at htokens
  | case2 rest ih =>
    obtain ⟨inside, after, hcut, hinside, hafter⟩ := ih htokens hus
    exact ⟨' ' :: inside, after, by simp [cutBracket, hcut], hinside, hafter⟩
  | case3 rest ih =>
    obtain ⟨ts, hts, heq⟩ := Option.map_eq_some_iff.mp htokens
    cases hus with
    | nil => cases heq
    | cons ht hus =>
      obtain ⟨rfl, rfl⟩ := List.cons.inj heq
      obtain rfl := Option.some.inj ht
      obtain ⟨inside, after, hcut, hinside, hafter⟩ := ih hts hus
      exact ⟨'-' :: '>' :: inside, after, by simp [cutBracket, hcut],
        by simp [tokens?, hinside], hafter⟩
  | case4 c rest hblank harrow ih =>
    obtain ⟨t, hc, htokens⟩ := Option.bind_eq_some_iff.mp htokens
    obtain ⟨ts, hts, heq⟩ := Option.map_eq_some_iff.mp htokens
    cases hus with
    | nil =>
      obtain ⟨rfl, rfl⟩ := List.cons.inj heq
      obtain rfl := eq_of_ofChar?_closing hc
      exact ⟨[], rest, by simp [cutBracket], rfl, hts⟩
    | cons ht hus =>
      obtain ⟨rfl, rfl⟩ := List.cons.inj heq
      obtain ⟨inside, after, hcut, hinside, hafter⟩ := ih hts hus
      refine ⟨c :: inside, after, by simp [cutBracket_cons rest hc ht, hcut], ?_, hafter⟩
      rw [tokens?_cons hblank, hc, hinside]
      · rfl
      · -- an arrow in the contents would be an arrow in the text
        rintro rfl hhead
        obtain ⟨more, rfl⟩ := List.head?_eq_some_iff.mp hhead
        exact harrow _ rfl (eq_of_cutBracket hcut)

/-! ### The grammar in the middle of a formula -/

/-- The tokens go on after the operand `a` to the formula `f`. -/
inductive Follows (a : Formula) : List Token → Formula → Prop
  | nothing : Follows a [] a
  | join {ts : List Token} {b : Formula} (op : Connective) (h : Derives .chain ts b) :
      Follows a (.connective op :: ts) (op.join a b)

/-- The tokens make `f` of what is pending. -/
def Completes : Pending → List Token → Formula → Prop
  | .awaiting n, ts, f =>
    ∃ us vs a, ts = us ++ vs ∧ Derives .operand us a ∧ Follows (negTimes n a) vs f
  | .operand a, ts, f => Follows a ts f

theorem negTimes_neg (n : Nat) (a : Formula) : negTimes n (neg a) = negTimes (n + 1) a := by
  induction n with
  | zero => rfl
  | succ n ih =>
    rw [negTimes, ih]
    rfl

theorem completes_operand_nil {a f : Formula} : Completes (.operand a) [] f ↔ f = a := by
  constructor
  · intro h
    cases h with
    | nothing => rfl
  · rintro rfl
    exact .nothing

/-- The first token after an operand. -/
theorem completes_operand_cons {a f : Formula} {t : Token} {ts : List Token} :
    Completes (.operand a) (t :: ts) f ↔
      match t with
      | .connective op => ∃ b, Derives .chain ts b ∧ f = op.join a b
      | .letter _ | .negation | .opening | .closing => False := by
  constructor
  · intro h
    cases h with
    | join op hb => exact ⟨_, hb, rfl⟩
  · intro h
    cases t with
    | connective op =>
      obtain ⟨b, hb, rfl⟩ := h
      exact .join op hb
    | letter | negation | opening | closing => exact h.elim

/-- A chain is what completes nothing. -/
theorem completes_awaiting_zero {ts : List Token} {f : Formula} :
    Completes (.awaiting 0) ts f ↔ Derives .chain ts f := by
  constructor
  · rintro ⟨us, vs, a, rfl, ha, h⟩
    cases h with
    | nothing =>
      rw [List.append_nil]
      exact .alone ha
    | join op hb => exact .join op ha hb
  · intro h
    cases h with
    | alone ha => exact ⟨ts, [], f, by simp, ha, .nothing⟩
    | join op ha hb => exact ⟨_, _, _, rfl, ha, .join op hb⟩

/-- The first token of an operand. -/
theorem completes_awaiting_cons {n : Nat} {t : Token} {ts : List Token} {f : Formula} :
    Completes (.awaiting n) (t :: ts) f ↔
      match t with
      | .letter l => Completes (.operand (negTimes n (var l.name))) ts f
      | .negation => Completes (.awaiting (n + 1)) ts f
      | .opening => ∃ us vs a, ts = us ++ .closing :: vs ∧ Derives .chain us a ∧
          Completes (.operand (negTimes n a)) vs f
      | .connective _ | .closing => False := by
  constructor
  · rintro ⟨us, vs, a, hts, ha, h⟩
    cases ha with
    | letter l =>
      obtain ⟨rfl, rfl⟩ := List.cons.inj hts
      exact h
    | @neg us a ha =>
      obtain ⟨rfl, rfl⟩ := List.cons.inj hts
      rw [negTimes_neg] at h
      exact ⟨us, vs, a, rfl, ha, h⟩
    | @bracket us a ha =>
      obtain ⟨rfl, rfl⟩ := List.cons.inj hts
      exact ⟨us, vs, _, by simp, ha, h⟩
  · intro h
    cases t with
    | letter l => exact ⟨[.letter l], ts, _, rfl, .letter l, h⟩
    | negation =>
      obtain ⟨us, vs, a, rfl, ha, h⟩ := h
      rw [← negTimes_neg] at h
      exact ⟨_, vs, _, rfl, .neg ha, h⟩
    | opening =>
      obtain ⟨us, vs, a, rfl, ha, h⟩ := h
      exact ⟨.opening :: (us ++ [.closing]), vs, a, by simp, .bracket ha, h⟩
    | connective | closing => exact h.elim

theorem not_completes_awaiting_nil {n : Nat} {f : Formula} : ¬ Completes (.awaiting n) [] f := by
  rintro ⟨us, vs, a, hts, ha, -⟩
  obtain ⟨rfl, -⟩ := List.append_eq_nil_iff.mp hts.symm
  cases ha

theorem not_completes_closing {pending : Pending} {ts : List Token} {f : Formula} :
    ¬ Completes pending (.closing :: ts) f := by
  cases pending with
  | awaiting n => simp [completes_awaiting_cons]
  | operand a => simp [completes_operand_cons]

/-! ### Reading follows the grammar -/

/-- The text consists of tokens that make `f` of what is pending. -/
def Spells (pending : Pending) (text : List Char) (f : Formula) : Prop :=
  ∃ ts, tokens? text = some ts ∧ Completes pending ts f

theorem spells_nil {pending : Pending} {f : Formula} :
    Spells pending [] f ↔ Completes pending [] f := by
  simp [Spells, tokens?]

theorem spells_arrow {pending : Pending} {rest : List Char} {f : Formula} :
    Spells pending ('-' :: '>' :: rest) f ↔
      ∃ ts, tokens? rest = some ts ∧ Completes pending (.connective .imp :: ts) f := by
  simp [Spells, tokens?]

theorem spells_cons {pending : Pending} {c : Char} {t : Token} {rest : List Char} {f : Formula}
    (hblank : c = ' ' → False) (harrow : ∀ rest', c = '-' → rest = '>' :: rest' → False)
    (hc : Token.ofChar? c = some t) :
    Spells pending (c :: rest) f ↔
      ∃ ts, tokens? rest = some ts ∧ Completes pending (t :: ts) f := by
  rw [Spells, tokens?, hc]
  · simp
  · exact hblank
  · exact harrow

theorem not_spells_unknown {pending : Pending} {c : Char} {rest : List Char} {f : Formula}
    (hblank : c = ' ' → False) (harrow : ∀ rest', c = '-' → rest = '>' :: rest' → False)
    (hc : Token.ofChar? c = none) : ¬ Spells pending (c :: rest) f := by
  rw [Spells, tokens?, hc]
  · simp
  · exact hblank
  · exact harrow

/-- A text of blanks is no operand. -/
theorem not_spells_of_blank {n : Nat} {text : List Char} {f : Formula}
    (h : text.all (· = ' ') = true) : ¬ Spells (.awaiting n) text f := by
  rintro ⟨ts, hts, hcomp⟩
  obtain rfl := Option.some.inj ((tokens?_eq_nil h).symm.trans hts)
  exact not_completes_awaiting_nil hcomp

/-- After an operand a connective joins the rest of the text. -/
theorem exists_completes_connective_iff {a f : Formula} {op : Connective} {rest : List Char} :
    (∃ ts, tokens? rest = some ts ∧ Completes (.operand a) (.connective op :: ts) f) ↔
      ∃ b, Spells (.awaiting 0) rest b ∧ f = op.join a b := by
  simp only [completes_operand_cons, Spells, completes_awaiting_zero]
  constructor
  · rintro ⟨ts, hts, b, hb, rfl⟩
    exact ⟨b, ⟨ts, hts, hb⟩, rfl⟩
  · rintro ⟨b, ⟨ts, hts, hb⟩, rfl⟩
    exact ⟨ts, hts, b, hb, rfl⟩

/-- A bracket is read on its own and the rest of the text after it. -/
theorem exists_completes_opening_iff {n : Nat} {rest : List Char} {f : Formula} :
    (∃ ts, tokens? rest = some ts ∧ Completes (.awaiting n) (.opening :: ts) f) ↔
      ∃ inside after a, cutBracket 0 rest = some (inside, after) ∧
        Spells (.awaiting 0) inside a ∧ Spells (.operand (negTimes n a)) after f := by
  simp only [completes_awaiting_cons]
  constructor
  · rintro ⟨ts, hts, us, vs, a, rfl, ha, h⟩
    obtain ⟨inside, after, hcut, hinside, hafter⟩ := exists_cutBracket hts ha.balanced
    exact ⟨inside, after, a, hcut, ⟨us, hinside, completes_awaiting_zero.mpr ha⟩, vs, hafter, h⟩
  · rintro ⟨inside, after, a, hcut, ⟨us, hinside, ha⟩, vs, hafter, h⟩
    refine ⟨us ++ .closing :: vs, ?_, us, vs, a, rfl, completes_awaiting_zero.mp ha, h⟩
    rw [eq_of_cutBracket hcut, tokens?_append (by simp), hinside]
    simp [tokens?, hafter, Token.ofChar?]

theorem readFrom_eq_ok_iff {text : List Char} {pending : Pending} {rest : List Char}
    {f : Formula} : readFrom text pending rest = .ok f ↔ Spells pending rest f := by
  fun_induction readFrom text pending rest generalizing f with
  | case1 text | case2 text n =>
    simp [spells_nil, not_completes_awaiting_nil]
  | case3 text a => simp [spells_nil, completes_operand_nil, eq_comm]
  | case4 text pending rest ih => exact ih
  | case5 text rest | case6 text rest n => simp [spells_arrow, completes_awaiting_cons]
  | case7 text rest a hblank =>
    rw [spells_arrow, exists_completes_connective_iff]
    simp [not_spells_of_blank hblank]
  | case8 text rest a hblank ih =>
    rw [spells_arrow, exists_completes_connective_iff, map_eq_ok_iff]
    simp only [ih]
    rfl
  | case9 text c rest hblank harrow n hsign ih =>
    obtain ⟨h, hc⟩ : Sign.letter.Fits c (Token.ofChar? c) := hsign ▸ fits_of c
    simp only [ih, spells_cons hblank harrow hc, completes_awaiting_cons]
    rfl
  | case10 text c rest hblank harrow n hsign ih =>
    have hc : Sign.negation.Fits c (Token.ofChar? c) := hsign ▸ fits_of c
    simp only [ih, spells_cons hblank harrow hc, completes_awaiting_cons]
    rfl
  | case11 text c rest hblank harrow n hsign hcut =>
    have hc : Sign.opening.Fits c (Token.ofChar? c) := hsign ▸ fits_of c
    rw [spells_cons hblank harrow hc, exists_completes_opening_iff]
    simp [hcut]
  | case12 text c rest hblank harrow n hsign inside after hcut _ e hinside ih =>
    have hc : Sign.opening.Fits c (Token.ofChar? c) := hsign ▸ fits_of c
    rw [spells_cons hblank harrow hc, exists_completes_opening_iff]
    simp [hcut, ← ih, hinside]
  | case13 text c rest hblank harrow n hsign inside after hcut _ a hinside ih₁ ih₂ =>
    have hc : Sign.opening.Fits c (Token.ofChar? c) := hsign ▸ fits_of c
    rw [spells_cons hblank harrow hc, exists_completes_opening_iff]
    simp [hcut, ← ih₁, hinside, ih₂]
  | case14 text c rest hblank harrow a hsign =>
    obtain ⟨h, hc⟩ : Sign.letter.Fits c (Token.ofChar? c) := hsign ▸ fits_of c
    simp [spells_cons hblank harrow hc, completes_operand_cons]
  | case15 text c rest hblank harrow a hsign =>
    have hc : Sign.negation.Fits c (Token.ofChar? c) := hsign ▸ fits_of c
    simp [spells_cons hblank harrow hc, completes_operand_cons]
  | case16 text c rest hblank harrow a hsign =>
    have hc : Sign.opening.Fits c (Token.ofChar? c) := hsign ▸ fits_of c
    simp [spells_cons hblank harrow hc, completes_operand_cons]
  | case17 text c rest hblank harrow join hsign | case20 text c rest hblank harrow join n hsign =>
    obtain ⟨op, hc, rfl⟩ : (Sign.connective join).Fits c (Token.ofChar? c) := hsign ▸ fits_of c
    simp [spells_cons hblank harrow hc, completes_awaiting_cons]
  | case18 text c rest hblank harrow join a hsign hrest =>
    obtain ⟨op, hc, rfl⟩ : (Sign.connective join).Fits c (Token.ofChar? c) := hsign ▸ fits_of c
    rw [spells_cons hblank harrow hc, exists_completes_connective_iff]
    simp [not_spells_of_blank hrest]
  | case19 text c rest hblank harrow join a hsign hrest ih =>
    obtain ⟨op, hc, rfl⟩ : (Sign.connective join).Fits c (Token.ofChar? c) := hsign ▸ fits_of c
    rw [spells_cons hblank harrow hc, exists_completes_connective_iff, map_eq_ok_iff]
    simp only [ih]
  | case21 text c rest hblank harrow n hsign | case22 text pending c rest hblank harrow hsign _ =>
    have hc : Sign.closing.Fits c (Token.ofChar? c) := hsign ▸ fits_of c
    simp [spells_cons hblank harrow hc, not_completes_closing]
  | case23 text pending c rest hblank harrow hsign =>
    have hc : Sign.unknown.Fits c (Token.ofChar? c) := hsign ▸ fits_of c
    simp [not_spells_unknown hblank harrow hc]

theorem read_eq_ok_iff {text : String} {f : Formula} :
    read text = .ok f ↔ ∃ ts, tokens? text.toList = some ts ∧ Derives .chain ts f := by
  rw [read, readFrom_eq_ok_iff, Spells]
  simp only [completes_awaiting_zero]

end Formula

/-- **Reading accepts exactly what the grammar derives.**  A text is read as a
formula when it consists of tokens that derive the formula; it is refused with
an error when it consists of no such tokens. -/
theorem read_iff_derives (text : String) :
    (∀ f, Formula.read text = .ok f ↔
      ∃ ts, Formula.tokens? text.toList = some ts ∧ Formula.Derives .chain ts f) ∧
    ((∃ e : ReadError, Formula.read text = .error e) ↔
      ¬ ∃ f ts, Formula.tokens? text.toList = some ts ∧ Formula.Derives .chain ts f) := by
  refine ⟨fun f => Formula.read_eq_ok_iff, ?_, fun hnone => ?_⟩
  · rintro ⟨e, he⟩ ⟨f, hf⟩
    rw [Formula.read_eq_ok_iff.mpr hf] at he
    cases he
  · rcases hread : Formula.read text with e | f
    · exact ⟨e, rfl⟩
    · exact absurd ⟨f, Formula.read_eq_ok_iff.mp hread⟩ hnone

end NaturalDeduction
