/-
Renaming of variables.

A renaming gives every name another one, and different names different ones.
It acts on a formula through its variables and on a line through its formula;
number, rule, citations and assumption set of the line stay as they are.

Since names stay apart, so do formulas (`Formula.rename_inj`).  Whatever a
sequence of lines is asked for has an answer that does not change, or one that
is renamed as the lines are: whether a formula is stated, whether a block is
open, which line stands at an index, what the lines rest on, which names occur.
-/
import Mathlib.Logic.Embedding.Basic
import NaturalDeduction.Line.Blocks
import NaturalDeduction.Line.Sequence
import NaturalDeduction.Proofs.Faults

namespace NaturalDeduction

/-- Repeats can be dropped before an injective map or after it. -/
theorem eraseDups_map {α β : Type} [BEq α] [LawfulBEq α] [BEq β] [LawfulBEq β] {f : α → β}
    (hf : Function.Injective f) (l : List α) : (l.map f).eraseDups = l.eraseDups.map f := by
  match l with
  | [] => rfl
  | a :: l =>
    -- what repeats the image of `a` is the image of what repeats `a`
    have hfilter : (l.map f).filter (fun b => !b == f a) = (l.filter fun b => !b == a).map f := by
      rw [List.filter_map]
      congr 1
      apply List.filter_congr
      intro b _
      rw [Function.comp_apply, Bool.eq_iff_iff]
      simp [hf.eq_iff]
    rw [List.map_cons, List.eraseDups_cons, List.eraseDups_cons, List.map_cons, hfilter,
      eraseDups_map hf]
termination_by l.length
decreasing_by exact Nat.lt_succ_of_le (List.length_filter_le _ _)

namespace Formula

/-- The formula with its variables renamed. -/
def rename (r : String ↪ String) : Formula → Formula
  | var name => var (r name)
  | neg a => neg (a.rename r)
  | conj a b => conj (a.rename r) (b.rename r)
  | disj a b => disj (a.rename r) (b.rename r)
  | imp a b => imp (a.rename r) (b.rename r)

variable (r : String ↪ String)

theorem rename_injective : Function.Injective (rename r) := by
  intro f g h
  induction f generalizing g with
  | var name =>
    cases g with
    | var name' => exact congrArg var (r.injective (var.inj h))
    | _ => cases h
  | neg a iha =>
    cases g with
    | neg a' => rw [iha (neg.inj h)]
    | _ => cases h
  | conj a b iha ihb =>
    cases g with
    | conj a' b' => rw [iha (conj.inj h).1, ihb (conj.inj h).2]
    | _ => cases h
  | disj a b iha ihb =>
    cases g with
    | disj a' b' => rw [iha (disj.inj h).1, ihb (disj.inj h).2]
    | _ => cases h
  | imp a b iha ihb =>
    cases g with
    | imp a' b' => rw [iha (imp.inj h).1, ihb (imp.inj h).2]
    | _ => cases h

@[simp] theorem rename_inj {f g : Formula} : f.rename r = g.rename r ↔ f = g :=
  (rename_injective r).eq_iff

theorem names_rename (f : Formula) : (f.rename r).names = f.names.map r := by
  induction f with
  | var name => rfl
  | neg a iha => exact iha
  | conj a b iha ihb | disj a b iha ihb | imp a b iha ihb =>
    rw [rename, names, names, iha, ihb, List.map_append]

end Formula

namespace Line

/-- The line with the variables of its formula renamed. -/
def rename (r : String ↪ String) (l : Line) : Line :=
  { l with formula := l.formula.rename r }

variable (r : String ↪ String)

@[simp] theorem rename_formula (l : Line) : (l.rename r).formula = l.formula.rename r := rfl

theorem rename_injective : Function.Injective (rename r) := by
  rintro ⟨_, f, _, _, _⟩ ⟨_, f', _, _, _⟩ h
  simpa only [rename, Line.mk.injEq, Formula.rename_inj] using h

variable (lines : List Line)

theorem states_rename (f : Formula) :
    states (lines.map (rename r)) (f.rename r) = states lines f := by
  simp [states, List.any_map, Function.comp_def]

theorem vocabulary_rename (goal : Formula) :
    vocabulary (lines.map (rename r)) (goal.rename r) = (vocabulary lines goal).map r := by
  have hnames : (lines.map (rename r)).flatMap (·.formula.names)
      = (lines.flatMap (·.formula.names)).map r := by
    rw [List.flatMap_map, List.map_flatMap]
    congr 1
    funext l
    exact Formula.names_rename r l.formula
  rw [vocabulary, vocabulary, hnames, Formula.names_rename, ← List.map_append,
    eraseDups_map r.injective]

theorem openHypotheses_rename :
    openHypotheses (lines.map (rename r))
      = (openHypotheses lines).map (Prod.map (rename r) id) := by
  have hdischarges : ∀ opener index, (lines.map (rename r)).any (·.discharges opener index)
      = lines.any (·.discharges opener index) := by
    intro opener index
    rw [List.any_map]
    rfl
  rw [openHypotheses, openHypotheses, List.zipIdx_map, List.filter_map]
  congr 1
  apply List.filter_congr
  rintro ⟨h, index⟩ -
  show (h.rule.opensBlock && !(lines.map (rename r)).any (·.discharges h.rule index)) = _
  rw [hdischarges]

theorem hasOpenBlock_rename (opener : Rule) :
    hasOpenBlock (lines.map (rename r)) opener = hasOpenBlock lines opener := by
  rw [hasOpenBlock, hasOpenBlock, openHypotheses_rename, List.any_map]
  rfl

theorem at?_rename (n : Int) : at? (lines.map (rename r)) n = (at? lines n).map (rename r) := by
  rw [at?, at?, List.length_map, List.getElem?_map, List.getElem?_map]
  split
  · rfl
  · split
    · rfl
    · rfl

theorem get_rename (n : Int) :
    get (lines.map (rename r)) n = (get lines n).map (rename r) := by
  rw [get, get, at?_rename]
  cases at? lines n with
  | none => rfl
  | some l => rfl

theorem restsOf_rename : restsOf (lines.map (rename r)) = restsOf lines := by
  rw [restsOf, restsOf, List.map_map]
  rfl

theorem restsAt_rename (indices : List Int) :
    restsAt (lines.map (rename r)) indices = restsAt lines indices := by
  have hlines := mapM_map_eq (f := id) (get_rename r lines) indices
  rw [List.map_id] at hlines
  rw [restsAt, restsAt, hlines]
  cases indices.mapM (get lines) with
  | error fault => rfl
  | ok cited => exact congrArg Except.ok (restsOf_rename r cited)

theorem renumber_rename (offset threshold : Int) (l : Line) :
    (l.rename r).renumber offset threshold = (l.renumber offset threshold).rename r := rfl

end Line

end NaturalDeduction
