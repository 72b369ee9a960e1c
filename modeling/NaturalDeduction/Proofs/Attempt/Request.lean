/-
Requests that are written and read.

A request is written from the printed forms of its assumptions, with a comma and a
blank between neighbours, a slash, and the printed form of its goal.  To read it
back it is cut up again, and the cuts have to fall where the pieces were joined.
They do because a text that is read as a formula consists of tokens and blanks
(`mem_of_tokens?`), and a comma or a slash is neither.

Blank characters are taken off both ends of the request, but a printed formula has
none there (`trimmed_render`).  The pieces after a comma keep the blank that was written
behind it, and reading passes over it.  Without assumptions nothing at all stands
before the slash, which is the one case where a text is not taken for a formula.

Main result: `ofRequest_written_iff`.
-/
import NaturalDeduction.Attempt.Request
import NaturalDeduction.Proofs.Formula.RoundTrip

namespace NaturalDeduction

/-! ### Cutting and trimming -/

namespace Text

theorem cutAt_append {sep : Char} {before : List Char} (h : sep ∉ before) (after : List Char) :
    cutAt sep (before ++ sep :: after) = some (before, after) := by
  induction before with
  | nil => simp [cutAt]
  | cons c before ih =>
    rw [List.mem_cons, not_or] at h
    rw [List.cons_append, cutAt, if_neg (Ne.symm h.1), ih h.2]
    rfl

theorem pieces_eq_splitOn (sep : Char) (cs : List Char) : pieces sep cs = cs.splitOn sep := by
  induction cs with
  | nil => simp [pieces]
  | cons c cs ih =>
    rw [pieces, ih, List.splitOn_eq_splitOnP, List.splitOn_eq_splitOnP,
      List.splitOnP_cons_eq_if_modifyHead]
    by_cases hsep : c = sep
    · simp [hsep]
    · rw [if_neg hsep, if_neg (by simpa using hsep)]
      cases hrest : List.splitOnP (· == sep) cs with
      | nil => exact absurd hrest (List.splitOnP_ne_nil _ _)
      | cons piece rest => rfl

/-- The text begins and ends with characters that are not blank. -/
structure Trimmed (cs : List Char) : Prop where
  first : ∃ c, cs.head? = some c ∧ isBlank c = false
  last : ∃ c, cs.getLast? = some c ∧ isBlank c = false

theorem trimmed_singleton {c : Char} (h : isBlank c = false) : Trimmed [c] :=
  ⟨⟨c, rfl, h⟩, ⟨c, rfl, h⟩⟩

/-- Anything may stand between two texts. -/
theorem Trimmed.around {cs cs' : List Char} (h : Trimmed cs) (h' : Trimmed cs')
    (middle : List Char) : Trimmed (cs ++ middle ++ cs') where
  first := by
    obtain ⟨c, hc, hblank⟩ := h.first
    exact ⟨c, by simp [List.head?_append, hc], hblank⟩
  last := by
    obtain ⟨c, hc, hblank⟩ := h'.last
    exact ⟨c, by simp [List.getLast?_append, hc], hblank⟩

theorem Trimmed.ne_nil {cs : List Char} (h : Trimmed cs) : cs ≠ [] := by
  rintro rfl
  obtain ⟨c, hc, -⟩ := h.first
  cases hc

theorem dropWhile_eq_self {test : Char → Bool} {cs : List Char}
    (h : ∃ c, cs.head? = some c ∧ test c = false) : cs.dropWhile test = cs := by
  obtain ⟨c, hc, htest⟩ := h
  obtain ⟨cs', rfl⟩ := List.head?_eq_some_iff.mp hc
  rw [List.dropWhile_cons_of_neg (by simp [htest])]

theorem Trimmed.trimBlank_eq {cs : List Char} (h : Trimmed cs) : trimBlank cs = cs := by
  rw [trimBlank, dropWhile_eq_self h.first, dropEnd, dropWhile_eq_self, List.reverse_reverse]
  simpa using h.last

theorem Trimmed.strip_eq {text : String} (h : Trimmed text.toList) : strip text = text := by
  rw [strip, h.trimBlank_eq, String.ofList_toList]

/-- A blank behind every separator may as well begin the piece after it. -/
theorem intercalate_blank (sep : Char) (l : List Char) (ls : List (List Char)) :
    [sep, ' '].intercalate (l :: ls) = [sep].intercalate (l :: ls.map (' ' :: ·)) := by
  induction ls generalizing l with
  | nil => simp
  | cons l' ls ih =>
    rw [List.intercalate_cons_cons, ih, List.map_cons, List.intercalate_cons_cons]
    cases ls <;> simp [List.intercalate_cons_cons]

end Text

/-! ### Printed formulas in a request -/

namespace Formula

/-- What consists of tokens and blanks has no other character. -/
theorem mem_of_tokens? {text : List Char} {ts : List Token} (h : tokens? text = some ts) {c : Char}
    (hc : c ∈ text) : c = ' ' ∨ ∃ t, Token.ofChar? c = some t := by
  fun_induction tokens? text generalizing ts with
  | case1 => cases hc
  | case2 rest ih =>
    rcases List.mem_cons.mp hc with rfl | hc
    · exact .inl rfl
    · exact ih h hc
  | case3 rest ih =>
    obtain ⟨us, hus, -⟩ := Option.map_eq_some_iff.mp h
    rcases List.mem_cons.mp hc with rfl | hc
    · exact .inr ⟨_, rfl⟩
    · rcases List.mem_cons.mp hc with rfl | hc
      · exact .inr ⟨_, rfl⟩
      · exact ih hus hc
  | case4 d rest hblank harrow ih =>
    obtain ⟨t, ht, hrest⟩ := Option.bind_eq_some_iff.mp h
    obtain ⟨us, hus, -⟩ := Option.map_eq_some_iff.mp hrest
    rcases List.mem_cons.mp hc with rfl | hc
    · exact .inr ⟨t, ht⟩
    · exact ih hus hc

theorem isBlank_eq_false_of_letter {c : Char} (h : 'A' ≤ c ∧ c ≤ 'Z') :
    Text.isBlank c = false := by
  have hlow : 65 ≤ c.toNat := h.1
  have hhigh : c.toNat ≤ 90 := h.2
  simp only [Text.isBlank, Text.blankRanges, List.any_cons, List.any_nil, Bool.or_false,
    Bool.or_eq_false_iff, Bool.and_eq_false_iff, decide_eq_false_iff_not]
  omega

/-- A printed formula neither begins nor ends with a blank character. -/
theorem trimmed_render {f : Formula} (h : ∀ name ∈ f.names, IsLetter name) :
    Text.Trimmed f.render.toList := by
  induction f with
  | var name =>
    obtain ⟨c, hc, rfl⟩ := h name (by simp [names])
    simpa [render] using Text.trimmed_singleton (isBlank_eq_false_of_letter hc)
  | neg a ih =>
    have hsign : Text.Trimmed ['~'] := Text.trimmed_singleton (by decide)
    simpa [render] using hsign.around (ih h) []
  | conj a b | disj a b | imp a b =>
    constructor
    · exact ⟨'(', by simp [render], by decide⟩
    · exact ⟨')', by simp [render, List.getLast?_cons, List.getLast?_append], by decide⟩

theorem not_mem_render {f : Formula} (h : ∀ name ∈ f.names, IsLetter name) {c : Char}
    (hblank : c ≠ ' ') (hc : Token.ofChar? c = none) : c ∉ f.render.toList := by
  intro hmem
  obtain ⟨ts, hts, -⟩ := read_eq_ok_iff.mp (read_render h)
  rcases mem_of_tokens? hts hmem with hspace | ⟨t, ht⟩
  · exact hblank hspace
  · rw [hc] at ht
    cases ht

/-- A blank before a formula is passed over. -/
theorem read_blank_append {text : String} {f : Formula} (h : read text = .ok f) :
    read (" " ++ text) = .ok f := by
  obtain ⟨ts, hts, hf⟩ := read_eq_ok_iff.mp h
  exact read_eq_ok_iff.mpr ⟨ts, by simpa [tokens?] using hts, hf⟩

theorem toList_renderAll (fs : List Formula) :
    (renderAll fs).toList = [',', ' '].intercalate (fs.map (·.render.toList)) := by
  simp [renderAll, String.toList_intercalate, Function.comp_def]

/-- Several printed forms have what each of them has, if it lasts where two are
joined. -/
theorem renderAll_induction {P : List Char → Prop} {fs : List Formula} (hne : fs ≠ [])
    (h : ∀ f ∈ fs, P f.render.toList) (hjoin : ∀ l l', P l → P l' → P (l ++ [',', ' '] ++ l')) :
    P (renderAll fs).toList := by
  rw [toList_renderAll]
  induction fs with
  | nil => exact absurd rfl hne
  | cons f fs ih =>
    obtain ⟨hf, hfs⟩ := List.forall_mem_cons.mp h
    by_cases hrest : fs = []
    · simpa [hrest] using hf
    · rw [List.map_cons, List.intercalate_cons_of_ne_nil (by simpa using hrest)]
      exact hjoin _ _ hf (ih hrest hfs)

theorem trimmed_renderAll {fs : List Formula} (hne : fs ≠ [])
    (h : ∀ f ∈ fs, ∀ name ∈ f.names, IsLetter name) : Text.Trimmed (renderAll fs).toList :=
  renderAll_induction hne (fun f hf => trimmed_render (h f hf)) fun _ _ hl hl' => hl.around hl' _

theorem slash_not_mem_renderAll {fs : List Formula}
    (h : ∀ f ∈ fs, ∀ name ∈ f.names, IsLetter name) : '/' ∉ (renderAll fs).toList := by
  by_cases hne : fs = []
  · simp [hne, renderAll]
  · refine renderAll_induction (P := ('/' ∉ ·)) hne (fun f hf => ?_) fun l l' hl hl' => ?_
    · exact not_mem_render (h f hf) (by decide) rfl
    · simp [hl, hl']

end Formula

/-! ### Requests -/

namespace Request

theorem readFormula_eq_ok_iff {text : String} {f : Formula} :
    readFormula text = .ok f ↔ Formula.read text = .ok f := by
  rw [readFormula]
  cases Formula.read text <;> simp [Except.mapError]

/-- A request is read piece by piece. -/
theorem read_eq_ok_iff {text : String} {assumptions : List Formula} {goal : Formula} :
    read text = .ok (assumptions, goal) ↔
      ∃ before after, split (Text.strip text) = .ok (before, after) ∧
        before.mapM readFormula = .ok assumptions ∧ readFormula after = .ok goal := by
  rw [read, bind_eq_ok_iff]
  constructor
  · rintro ⟨⟨before, after⟩, hsplit, h⟩
    obtain ⟨fs, hfs, h⟩ := bind_eq_ok_iff.mp h
    obtain ⟨f, hf, h⟩ := bind_eq_ok_iff.mp h
    obtain ⟨rfl, rfl⟩ := Prod.mk.inj (pure_eq_ok_iff.mp h)
    exact ⟨before, after, hsplit, hfs, hf⟩
  · rintro ⟨before, after, hsplit, hbefore, hafter⟩
    refine ⟨(before, after), hsplit, bind_eq_ok_iff.mpr ⟨assumptions, hbefore, ?_⟩⟩
    exact bind_eq_ok_iff.mpr ⟨goal, hafter, rfl⟩

theorem names_letters_of_readFormula {text : String} {f : Formula} (h : readFormula text = .ok f) :
    ∀ name ∈ f.names, Formula.IsLetter name :=
  Formula.names_letters_of_read (readFormula_eq_ok_iff.mp h)

/-- The texts of the assumptions when the request is cut up.  All but the first
keep the blank behind the comma. -/
def writtenPieces : List Formula → List String
  | [] => []
  | f :: fs => f.render :: fs.map fun g => " " ++ g.render

theorem pieces_renderAll {f : Formula} {fs : List Formula}
    (h : ∀ g ∈ f :: fs, ∀ name ∈ g.names, Formula.IsLetter name) :
    (Text.pieces ',' (Formula.renderAll (f :: fs)).toList).map String.ofList
      = writtenPieces (f :: fs) := by
  have hcomma : ∀ g ∈ f :: fs, ',' ∉ g.render.toList := fun g hg =>
    Formula.not_mem_render (h g hg) (by decide) rfl
  rw [Formula.toList_renderAll, List.map_cons, Text.intercalate_blank, Text.pieces_eq_splitOn,
    List.splitOn_intercalate]
  · simp [writtenPieces, Function.comp_def]
  · rw [List.forall_mem_cons, List.map_map, List.forall_mem_map]
    refine ⟨hcomma f List.mem_cons_self, fun g hg => ?_⟩
    simpa using hcomma g (List.mem_cons_of_mem f hg)
  · simp

theorem toList_written (assumptions : List Formula) (goal : Formula) :
    (Formula.renderAll assumptions ++ "/" ++ goal.render).toList
      = (Formula.renderAll assumptions).toList ++ '/' :: goal.render.toList := by
  simp

theorem trimmed_written {assumptions : List Formula} {goal : Formula}
    (h : ∀ f ∈ goal :: assumptions, ∀ name ∈ f.names, Formula.IsLetter name) :
    Text.Trimmed (Formula.renderAll assumptions ++ "/" ++ goal.render).toList := by
  obtain ⟨hgoal, hassumptions⟩ := List.forall_mem_cons.mp h
  rw [toList_written]
  cases assumptions with
  | nil =>
    have hslash : Text.Trimmed ['/'] := Text.trimmed_singleton (by decide)
    exact hslash.around (Formula.trimmed_render hgoal) []
  | cons f fs =>
    have hbefore := Formula.trimmed_renderAll (by simp) hassumptions
    simpa using hbefore.around (Formula.trimmed_render hgoal) ['/']

/-- A written request is cut up where it was put together. -/
theorem split_written {assumptions : List Formula} {goal : Formula}
    (h : ∀ f ∈ goal :: assumptions, ∀ name ∈ f.names, Formula.IsLetter name) :
    split (Text.strip (Formula.renderAll assumptions ++ "/" ++ goal.render))
      = .ok (writtenPieces assumptions, goal.render) := by
  have hassumptions := (List.forall_mem_cons.mp h).2
  rw [(trimmed_written h).strip_eq, split, toList_written,
    Text.cutAt_append (Formula.slash_not_mem_renderAll hassumptions)]
  cases assumptions with
  | nil => simp [Formula.renderAll, Text.trimBlank, Text.dropEnd, writtenPieces]
  | cons f fs =>
    have hbefore := Formula.trimmed_renderAll (by simp) hassumptions
    have hne : (Formula.renderAll (f :: fs)).toList.isEmpty = false := by
      simpa using hbefore.ne_nil
    simp only [hbefore.trimBlank_eq, hne, pieces_renderAll hassumptions, String.ofList_toList]
    rfl

theorem mapM_writtenPieces {fs : List Formula}
    (h : ∀ f ∈ fs, ∀ name ∈ f.names, Formula.IsLetter name) :
    (writtenPieces fs).mapM readFormula = .ok fs := by
  simp only [mapM_eq_ok_iff, readFormula_eq_ok_iff]
  cases fs with
  | nil => exact .nil
  | cons f fs =>
    obtain ⟨hf, hfs⟩ := List.forall_mem_cons.mp h
    refine .cons (Formula.read_render hf) ?_
    rw [List.forall₂_map_left_iff, List.forall₂_same]
    exact fun g hg => Formula.read_blank_append (Formula.read_render (hfs g hg))

end Request

/-- **A written request asks for what it was written from.**  The request reads back
as the same assumptions in the same order and the same goal, and its attempt starts
with the lines of these assumptions, exactly when all variables are letters. -/
theorem ofRequest_written_iff (assumptions : List Formula) (goal : Formula) (settings : Settings) :
    Attempt.ofRequest (Formula.renderAll assumptions ++ "/" ++ goal.render) settings = .ok
        ⟨assumptions, goal, settings, Line.ofAssumptions assumptions, false, .searching, none⟩ ↔
      ∀ f ∈ goal :: assumptions, ∀ name ∈ f.names, Formula.IsLetter name := by
  rw [Attempt.ofRequest, bind_eq_ok_iff]
  constructor
  · rintro ⟨⟨fs, f⟩, hread, h⟩
    obtain ⟨rfl, rfl, -⟩ := Attempt.mk.inj (pure_eq_ok_iff.mp h)
    obtain ⟨before, after, -, hbefore, hafter⟩ := Request.read_eq_ok_iff.mp hread
    rw [List.forall_mem_cons]
    refine ⟨Request.names_letters_of_readFormula hafter, fun f hf => ?_⟩
    obtain ⟨text, -, htext⟩ := exists_of_mem_mapM hbefore hf
    exact Request.names_letters_of_readFormula htext
  · intro h
    obtain ⟨hgoal, hassumptions⟩ := List.forall_mem_cons.mp h
    refine ⟨(assumptions, goal), ?_, rfl⟩
    exact Request.read_eq_ok_iff.mpr ⟨_, _, Request.split_written h,
      Request.mapM_writtenPieces hassumptions,
      Request.readFormula_eq_ok_iff.mpr (Formula.read_render hgoal)⟩

end NaturalDeduction
