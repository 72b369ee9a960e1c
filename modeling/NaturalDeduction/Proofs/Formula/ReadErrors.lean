/-
What the faults of reading say of the text.

The contents of a bracket are cut out and read as a text of their own.  A fault
found in there is handed on as it is, so it could be told of the contents and not
of the whole text.  For a foreign character and for an empty bracket this makes no
difference: they stand in the whole text as well.  A stray or an open bracket is
told by a piece of the text and by numbers, and there it would.  But neither can
be found inside a bracket: where a bracket is cut out, its contents close what
they open and nothing else (`level_of_cutBracket`).

Brackets are counted by `excess`.  A stretch of text is level when it closes what
it opens and nothing else (`Level`).  Whatever has been read is level, so the
first fault with a bracket lies behind a level stretch, and this is what `Reports`
says of a fault that is found at the end of a text.

Main result: `read_error_tells`.
-/
import NaturalDeduction.Proofs.Formula.Grammar

namespace NaturalDeduction

namespace Formula

/-! ### Counting brackets -/

/-- How many more brackets a text opens than it closes. -/
def excess (text : List Char) : Int :=
  text.count '(' - text.count ')'

/-- No stretch from the start of the text has an excess below `low`. -/
def StaysAbove (low : Int) (text : List Char) : Prop :=
  ∀ p, p <+: text → low ≤ excess p

/-- The text closes the brackets that it opens and no other. -/
structure Level (text : List Char) : Prop where
  total : excess text = 0
  above : StaysAbove 0 text

@[simp] theorem excess_nil : excess [] = 0 := rfl

@[simp] theorem excess_append (text more : List Char) :
    excess (text ++ more) = excess text + excess more := by
  simp only [excess, List.count_append]
  omega

theorem excess_cons (c : Char) (text : List Char) :
    excess (c :: text) = excess [c] + excess text :=
  excess_append [c] text

@[simp] theorem excess_opening : excess ['('] = 1 := rfl

@[simp] theorem excess_closing : excess [')'] = -1 := rfl

theorem excess_other {c : Char} (hopening : c ≠ '(') (hclosing : c ≠ ')') : excess [c] = 0 := by
  simp [excess, hopening, hclosing]

theorem excess_neg_iff {text : List Char} : excess text < 0 ↔ text.count '(' < text.count ')' := by
  rw [excess]
  omega

theorem StaysAbove.le_excess {low : Int} {text : List Char} (h : StaysAbove low text) :
    low ≤ excess text :=
  h text (List.prefix_refl text)

theorem staysAbove_nil {low : Int} : StaysAbove low [] ↔ low ≤ 0 := by
  simp [StaysAbove]

theorem staysAbove_append {low : Int} {text more : List Char} :
    StaysAbove low (text ++ more) ↔
      StaysAbove low text ∧ StaysAbove (low - excess text) more := by
  constructor
  · intro h
    constructor
    · exact fun p hp => h p (hp.trans (List.prefix_append text more))
    · intro p hp
      have := h (text ++ p) ((List.prefix_append_right_inj text).mpr hp)
      rw [excess_append] at this
      omega
  · rintro ⟨htext, hmore⟩ p hp
    -- the stretch ends in `text`, or it is `text` and goes on into `more`
    rcases List.prefix_or_prefix_of_prefix hp (List.prefix_append text more) with hp' | ⟨q, rfl⟩
    · exact htext p hp'
    · have := hmore q ((List.prefix_append_right_inj text).mp hp)
      rw [excess_append]
      omega

theorem staysAbove_cons {low : Int} {c : Char} {text : List Char} :
    StaysAbove low (c :: text) ↔ low ≤ 0 ∧ StaysAbove (low - excess [c]) text := by
  have hfirst : StaysAbove low [c] ↔ low ≤ 0 ∧ low - excess [c] ≤ 0 := by
    simp only [StaysAbove, List.prefix_cons_iff, List.prefix_nil, forall_eq_or_imp, excess_nil,
      exists_eq_right, forall_eq]
    omega
  rw [← List.singleton_append, staysAbove_append, hfirst]
  constructor
  · rintro ⟨⟨hlow, -⟩, htext⟩
    exact ⟨hlow, htext⟩
  · rintro ⟨hlow, htext⟩
    exact ⟨⟨hlow, htext [] List.nil_prefix⟩, htext⟩

theorem Level.append {text more : List Char} (h : Level text) (hmore : Level more) :
    Level (text ++ more) where
  total := by rw [excess_append, h.total, hmore.total, Int.add_zero]
  above := by
    rw [staysAbove_append, h.total, Int.sub_zero]
    exact ⟨h.above, hmore.above⟩

theorem level_nil : Level [] :=
  ⟨rfl, staysAbove_nil.mpr (Int.le_refl 0)⟩

theorem level_singleton {c : Char} (hopening : c ≠ '(') (hclosing : c ≠ ')') : Level [c] where
  total := excess_other hopening hclosing
  above := by
    rw [staysAbove_cons, excess_other hopening hclosing, Int.sub_zero, staysAbove_nil]
    exact ⟨Int.le_refl 0, Int.le_refl 0⟩

/-- A bracket with its contents. -/
theorem Level.bracket {inside : List Char} (h : Level inside) :
    Level ('(' :: (inside ++ [')'])) where
  total := by
    rw [excess_cons, excess_append, h.total]
    rfl
  above := by
    rw [staysAbove_cons, staysAbove_append, staysAbove_cons, staysAbove_nil, h.total]
    refine ⟨Int.le_refl 0, ?_, by simp, by simp⟩
    intro p hp
    have := h.above p hp
    rw [excess_opening]
    omega

/-! ### Brackets that are cut out -/

/-- The next character is the sign that closes the bracket, or it belongs to the
contents and changes the depth by what it opens or closes. -/
theorem cutBracket_cases (depth : Nat) (c : Char) (rest : List Char) :
    (c = ')' ∧ depth = 0 ∧ cutBracket depth (c :: rest) = some ([], rest)) ∨
    ∃ depth' : Nat, (depth' : Int) = depth + excess [c] ∧
      cutBracket depth (c :: rest)
        = (cutBracket depth' rest).map fun (inside, after) => (c :: inside, after) := by
  by_cases hclosing : c = ')'
  · subst hclosing
    cases depth with
    | zero => exact .inl ⟨rfl, rfl, by simp [cutBracket]⟩
    | succ depth => exact .inr ⟨depth, by rw [excess_closing]; omega, by simp [cutBracket]⟩
  · by_cases hopening : c = '('
    · subst hopening
      exact .inr ⟨depth + 1, by simp, by simp [cutBracket]⟩
    · refine .inr ⟨depth, by simp [excess_other hopening hclosing], ?_⟩
      rw [cutBracket]
      · exact hopening
      · exact fun _ => hclosing
      · exact fun _ _ => hclosing

theorem excess_of_cutBracket {depth : Nat} {text inside after : List Char}
    (h : cutBracket depth text = some (inside, after)) :
    excess inside = -depth ∧ StaysAbove (-depth) inside := by
  induction text generalizing depth inside with
  | nil => simp [cutBracket] at h
  | cons c rest ih =>
    rcases cutBracket_cases depth c rest with ⟨-, rfl, hcut⟩ | ⟨depth', hdepth, hcut⟩
    · obtain ⟨rfl, -⟩ := Prod.mk.inj (Option.some.inj (hcut.symm.trans h))
      exact ⟨rfl, staysAbove_nil.mpr (Int.le_refl 0)⟩
    · rw [hcut] at h
      obtain ⟨⟨inside', after'⟩, hcut', heq⟩ := Option.map_eq_some_iff.mp h
      obtain ⟨rfl, rfl⟩ := Prod.mk.inj heq
      obtain ⟨htotal, habove⟩ := ih hcut'
      have hlow : -(depth : Int) - excess [c] = -depth' := by omega
      rw [excess_cons, staysAbove_cons, hlow]
      exact ⟨by omega, by omega, habove⟩

/-- What is inside a bracket is level. -/
theorem level_of_cutBracket {text inside after : List Char}
    (h : cutBracket 0 text = some (inside, after)) : Level inside :=
  ⟨(excess_of_cutBracket h).1, (excess_of_cutBracket h).2⟩

/-- Behind a bracket that is never closed no more is closed than opened. -/
theorem staysAbove_of_cutBracket {depth : Nat} {text : List Char}
    (h : cutBracket depth text = none) : StaysAbove (-depth) text := by
  induction text generalizing depth with
  | nil => exact staysAbove_nil.mpr (by omega)
  | cons c rest ih =>
    rcases cutBracket_cases depth c rest with ⟨-, -, hcut⟩ | ⟨depth', hdepth, hcut⟩
    · rw [hcut] at h
      cases h
    · rw [hcut, Option.map_eq_none_iff] at h
      have hlow : -(depth : Int) - excess [c] = -depth' := by omega
      rw [staysAbove_cons, hlow]
      exact ⟨by omega, ih h⟩

/-! ### Faults at the end of a text -/

/-- A character that stands in no formula. -/
def IsForeign (c : Char) : Prop :=
  ¬ ('A' ≤ c ∧ c ≤ 'Z') ∧ c ∉ ['&', 'v', '|', '>', '-', '~', '(', ')', ' ']

/-- The text has a pair of brackets with nothing or only blanks in it. -/
def HasEmptyBracket (text : List Char) : Prop :=
  ∃ before blanks after, text = before ++ '(' :: (blanks ++ ')' :: after) ∧
    blanks.all (· = ' ') = true

/-- What a fault says that is found when `rest` is still to be read of `text`. -/
def Reports (text rest : List Char) : ReadError → Prop
  | .invalidCharacter c => c ∈ rest ∧ IsForeign c
  | .empty => HasEmptyBracket rest
  | .strayBracket upTo => ∃ before after, rest = before ++ ')' :: after ∧ Level before ∧
      upTo.toList = text.take (text.length - after.length)
  | .openBracket after count => ∃ before, rest = before ++ '(' :: after.toList ∧ Level before ∧
      StaysAbove 0 after.toList ∧ (count : Int) = 1 + excess after.toList
  | .missingLeft _ | .missingRight _ | .missingNegated | .notConnective _ => True

theorem HasEmptyBracket.append {text : List Char} (h : HasEmptyBracket text)
    (before after : List Char) : HasEmptyBracket (before ++ text ++ after) := by
  obtain ⟨before', blanks, after', rfl, hblanks⟩ := h
  exact ⟨before ++ before', blanks, after' ++ after, by simp, hblanks⟩

/-- Only level text may be read before a fault that is found in the rest. -/
theorem Reports.append {text before rest : List Char} {e : ReadError} (hbefore : Level before)
    (h : Reports text rest e) : Reports text (before ++ rest) e := by
  cases e with
  | invalidCharacter c => exact ⟨List.mem_append_right _ h.1, h.2⟩
  | empty => simpa [Reports] using HasEmptyBracket.append h before []
  | strayBracket upTo =>
    obtain ⟨before', after, rfl, hlevel, hupTo⟩ := h
    exact ⟨before ++ before', after, by simp, hbefore.append hlevel, hupTo⟩
  | openBracket after count =>
    obtain ⟨before', rfl, hlevel, hopen⟩ := h
    exact ⟨before ++ before', by simp, hbefore.append hlevel, hopen⟩
  | missingLeft | missingRight | missingNegated | notConnective => trivial

/-- A fault found in a bracket is a fault of the whole text. -/
theorem Reports.bracket {text inside : List Char} {e : ReadError} (hlevel : Level inside)
    (h : Reports inside inside e) (after : List Char) :
    Reports text ('(' :: (inside ++ ')' :: after)) e := by
  cases e with
  | invalidCharacter c => exact ⟨by simp [h.1], h.2⟩
  | empty => simpa [Reports] using HasEmptyBracket.append h ['('] (')' :: after)
  | strayBracket upTo =>
    -- what is inside a bracket closes no more than it opens
    obtain ⟨before, after', hinside, hbefore, -⟩ := h
    have habove : StaysAbove 0 (before ++ [')'] ++ after') := by
      simpa [← hinside] using hlevel.above
    have := (staysAbove_append.mp habove).1.le_excess
    rw [excess_append, hbefore.total, excess_closing] at this
    omega
  | openBracket after' count =>
    -- nor does it open more than it closes
    obtain ⟨before, hinside, hbefore, habove, -⟩ := h
    have htotal := hlevel.total
    rw [hinside, excess_append, excess_cons, excess_opening, hbefore.total] at htotal
    have := habove.le_excess
    omega
  | missingLeft | missingRight | missingNegated | notConnective => trivial

/-! ### What the reader sees -/

theorem isForeign_of_sign {c : Char} (hblank : c = ' ' → False) (hsign : Sign.of c = .unknown) :
    IsForeign c := by
  constructor
  · intro hletter
    have hc : Sign.unknown.Fits c (Token.ofChar? c) := hsign ▸ fits_of c
    rw [Sign.Fits, ofChar?_of_letter hletter] at hc
    cases hc
  · intro hmem
    simp only [List.mem_cons, List.not_mem_nil, or_false] at hmem
    rcases hmem with rfl | rfl | rfl | rfl | rfl | rfl | rfl | rfl | rfl
    case inr.inr.inr.inr.inr.inr.inr.inr => exact hblank rfl
    all_goals cases hsign

theorem level_of_sign {c : Char} (hopening : Sign.of c ≠ .opening)
    (hclosing : Sign.of c ≠ .closing) : Level [c] := by
  apply level_singleton
  · rintro rfl
    exact hopening rfl
  · rintro rfl
    exact hclosing rfl

theorem eq_of_sign_opening {c : Char} (hsign : Sign.of c = .opening) : c = '(' :=
  eq_of_ofChar?_opening (show Sign.opening.Fits c (Token.ofChar? c) from hsign ▸ fits_of c)

theorem eq_of_sign_closing {c : Char} (hsign : Sign.of c = .closing) : c = ')' :=
  eq_of_ofChar?_closing (show Sign.closing.Fits c (Token.ofChar? c) from hsign ▸ fits_of c)

/-! ### Faults of reading -/

/-- A fault that is found when `rest` is still to be read is reported of `rest`,
or an operand is due and only blanks are left. -/
theorem readFrom_error {text : List Char} {pending : Pending} {rest : List Char} {e : ReadError}
    (h : readFrom text pending rest = .error e) :
    Reports text rest e ∨
      e = .empty ∧ pending = .awaiting 0 ∧ rest.all (· = ' ') = true := by
  fun_induction readFrom text pending rest with
  | case1 text =>
    obtain rfl := Except.error.inj h
    exact .inr ⟨rfl, rfl, rfl⟩
  | case2 text n | case5 text rest | case6 text rest n | case7 text rest a hblank
  | case14 text c rest hblank harrow a hsign | case15 text c rest hblank harrow a hsign
  | case16 text c rest hblank harrow a hsign | case17 text c rest hblank harrow join hsign
  | case18 text c rest hblank harrow join a hsign hrest
  | case20 text c rest hblank harrow join n hsign | case21 text c rest hblank harrow n hsign =>
    obtain rfl := Except.error.inj h
    exact .inl trivial
  | case3 text a => cases h
  | case4 text pending rest ih =>
    rcases ih h with hrest | ⟨he, hpending, hrest⟩
    · exact .inl (hrest.append (level_singleton (by decide) (by decide)))
    · exact .inr ⟨he, hpending, by simpa using hrest⟩
  | case8 text rest a hblank ih =>
    rcases ih (map_eq_error_iff.mp h) with hrest | ⟨-, -, hrest⟩
    · have harrow : Level ['-', '>'] :=
        (level_singleton (by decide) (by decide)).append (level_singleton (by decide) (by decide))
      exact .inl (hrest.append harrow)
    · exact absurd hrest hblank
  | case9 text c rest hblank harrow n hsign ih
  | case10 text c rest hblank harrow n hsign ih =>
    rcases ih h with hrest | ⟨-, hpending, -⟩
    · exact .inl (hrest.append (level_of_sign (by simp [hsign]) (by simp [hsign])))
    · cases hpending
  | case11 text c rest hblank harrow n hsign hcut =>
    obtain rfl := Except.error.inj h
    obtain rfl := eq_of_sign_opening hsign
    have habove := staysAbove_of_cutBracket hcut
    have hcount := habove.le_excess
    refine .inl ⟨[], by simp, level_nil, by simpa using habove, ?_⟩
    rw [String.toList_ofList]
    simp only [excess] at hcount ⊢
    omega
  | case12 text c rest hblank harrow n hsign inside after hcut _ e' hinside ih =>
    obtain rfl := Except.error.inj h
    obtain rfl := eq_of_sign_opening hsign
    rw [eq_of_cutBracket hcut]
    rcases ih hinside with hinside | ⟨rfl, -, hblank⟩
    · exact .inl (hinside.bracket (level_of_cutBracket hcut) after)
    · exact .inl ⟨[], inside, after, rfl, hblank⟩
  | case13 text c rest hblank harrow n hsign inside after hcut _ a hinside ih₁ ih₂ =>
    obtain rfl := eq_of_sign_opening hsign
    rcases ih₂ h with hafter | ⟨-, hpending, -⟩
    · rw [eq_of_cutBracket hcut]
      exact .inl (by simpa using hafter.append (level_of_cutBracket hcut).bracket)
    · cases hpending
  | case19 text c rest hblank harrow join a hsign hrest ih =>
    rcases ih (map_eq_error_iff.mp h) with hfault | ⟨-, -, hrest'⟩
    · exact .inl (hfault.append (level_of_sign (by simp [hsign]) (by simp [hsign])))
    · exact absurd hrest' hrest
  | case22 text pending c rest hblank harrow hsign _ =>
    obtain rfl := Except.error.inj h
    obtain rfl := eq_of_sign_closing hsign
    exact .inl ⟨[], rest, rfl, level_nil, String.toList_ofList⟩
  | case23 text pending c rest hblank harrow hsign =>
    obtain rfl := Except.error.inj h
    exact .inl ⟨List.mem_cons_self, isForeign_of_sign hblank hsign⟩

end Formula

/-! ### Faults told of the whole text -/

/-- What a fault says is so of the text. -/
def ReadError.TellsOf (text : String) : ReadError → Prop
  | .invalidCharacter c => c ∈ text.toList ∧ Formula.IsForeign c
  | .empty => text.toList.all (· = ' ') = true ∨ Formula.HasEmptyBracket text.toList
  -- the shortest start of the text that closes more than it opens
  | .strayBracket upTo => upTo.toList <+: text.toList ∧
      upTo.toList.count '(' < upTo.toList.count ')' ∧
      ∀ p, p <+: text.toList → p.count '(' < p.count ')' → upTo.toList.length ≤ p.length
  -- the bracket stands right before `after` and is not closed anywhere in it
  | .openBracket after count => (∃ before, text.toList = before ++ '(' :: after.toList) ∧
      (∀ p, p <+: after.toList → p.count ')' ≤ p.count '(') ∧
      1 ≤ count ∧ (count : Int) = 1 + after.toList.count '(' - after.toList.count ')'
  | .missingLeft _ | .missingRight _ | .missingNegated | .notConnective _ => True

namespace Formula

/-- No shorter start of the text closes more than it opens. -/
theorem length_le_of_excess_neg {before after p : List Char} (hbefore : Level before)
    (hp : p <+: before ++ ')' :: after) (hneg : excess p < 0) :
    (before ++ [')']).length ≤ p.length := by
  rcases List.prefix_or_prefix_of_prefix hp (List.prefix_append before (')' :: after))
    with hp' | ⟨q, rfl⟩
  · have := hbefore.above p hp'
    omega
  · cases q with
    | nil =>
      rw [List.append_nil, hbefore.total] at hneg
      omega
    | cons c q => simp

theorem tellsOf_of_reports {text : String} {e : ReadError} (h : Reports text.toList text.toList e) :
    e.TellsOf text := by
  cases e with
  | invalidCharacter c => exact h
  | empty => exact .inr h
  | strayBracket upTo =>
    obtain ⟨before, after, htext, hbefore, hupTo⟩ := h
    have htake : upTo.toList = before ++ [')'] := by
      have hcut : text.toList = before ++ [')'] ++ after := by simp [htext]
      rw [hupTo, hcut, List.length_append, Nat.add_sub_cancel, List.take_left]
    rw [ReadError.TellsOf, htake, ← excess_neg_iff, excess_append, hbefore.total, excess_closing]
    refine ⟨by simp [htext], by decide, fun p hp hcount => ?_⟩
    exact length_le_of_excess_neg hbefore (htext ▸ hp) (excess_neg_iff.mpr hcount)
  | openBracket after count =>
    obtain ⟨before, htext, -, habove, hcount⟩ := h
    have hend := habove.le_excess
    refine ⟨⟨before, htext⟩, fun p hp => ?_, by omega, ?_⟩
    · have := habove p hp
      rw [excess] at this
      omega
    · rw [hcount, excess]
      omega
  | missingLeft | missingRight | missingNegated | notConnective => trivial

end Formula

/-- **What a fault of reading says is so of the whole text.**  A character that is
refused occurs in the text and in no formula.  A text is empty where it has only
blanks, or a bracket with only blanks in it.  A stray bracket is told by the shortest
start of the text that closes more than it opens.  An open bracket is told by all
that follows it, in which it is not closed, and by how many are open at the end. -/
theorem read_error_tells {text : String} {e : ReadError} (h : Formula.read text = .error e) :
    e.TellsOf text := by
  rcases Formula.readFrom_error h with hfault | ⟨rfl, -, hblank⟩
  · exact Formula.tellsOf_of_reports hfault
  · exact .inl hblank

/-- A fault of each kind, behind or inside of brackets that are closed. -/
theorem read_error_tells_bracketed :
    (Formula.read "(A & -(B v A)) > (A$B)" = .error (.invalidCharacter '$') ∧
      (ReadError.invalidCharacter '$').TellsOf "(A & -(B v A)) > (A$B)") ∧
    (Formula.read "(A > B) & (A & (  ))" = .error .empty ∧
      ReadError.empty.TellsOf "(A > B) & (A & (  ))") ∧
    (Formula.read "(A > (B)) & B) v (A)" = .error (.strayBracket "(A > (B)) & B)") ∧
      (ReadError.strayBracket "(A > (B)) & B)").TellsOf "(A > (B)) & B) v (A)") ∧
    (Formula.read "(A) v ((B & (A)) > (-B" = .error (.openBracket "(B & (A)) > (-B" 2) ∧
      (ReadError.openBracket "(B & (A)) > (-B" 2).TellsOf "(A) v ((B & (A)) > (-B") := by
  have hforeign : Formula.read "(A & -(B v A)) > (A$B)" = .error (.invalidCharacter '$') := by
    decide +kernel
  have hempty : Formula.read "(A > B) & (A & (  ))" = .error .empty := by decide +kernel
  have hstray : Formula.read "(A > (B)) & B) v (A)" = .error (.strayBracket "(A > (B)) & B)") := by
    decide +kernel
  have hopen :
      Formula.read "(A) v ((B & (A)) > (-B" = .error (.openBracket "(B & (A)) > (-B" 2) := by
    decide +kernel
  exact ⟨⟨hforeign, read_error_tells hforeign⟩, ⟨hempty, read_error_tells hempty⟩,
    ⟨hstray, read_error_tells hstray⟩, ⟨hopen, read_error_tells hopen⟩⟩

end NaturalDeduction
