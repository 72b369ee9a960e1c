/-
The search does not look at names.

The search tells formulas apart, takes them apart and puts them together; what
the variables are called it never asks.  So a search from a head with its
variables renamed does what the search from the head does, with everything
renamed (`Node.search_rename`).

The equation goes through the search from the inside out: each rule, the
candidates of a node, a pass, a run, and by induction on the room the searches
nested in each other.

Fingerprints do depend on names.  Where repeats are dropped from the candidates
they make no difference to the result.  What a search has seen, however, is kept
by fingerprints, so it is not turned into what the renamed search has seen by
any map; the two are related by which states they contain (`Seen.Renames`).

Main result: `search_equivariant`.
-/
import Mathlib.Data.List.Perm.Basic
import Mathlib.Logic.Equiv.Basic
import NaturalDeduction.Proofs.Line.Renaming
import NaturalDeduction.Proofs.Search.Numbering

namespace NaturalDeduction

/-! ### Renamed results -/

/-- The draft with its variables renamed. -/
def Draft.rename (r : String ↪ String) (d : Draft) : Draft :=
  { d with formula := d.formula.rename r }

/-- The extension with its variables renamed. -/
def Extension.rename (r : String ↪ String) (e : Extension) : Extension :=
  ⟨e.lead.map (Line.rename r), e.last.rename r⟩

/-- The node with its variables renamed, those of the goal too. -/
def Node.rename (r : String ↪ String) (n : Node) : Node :=
  ⟨n.lines.map (Line.rename r), n.goal.rename r, n.settings⟩

/-- The event with its variables renamed. -/
def Event.rename (r : String ↪ String) : Event → Event
  | generated candidates lines subSearches => generated candidates lines subSearches
  | branchFailed goal hypothesis why => branchFailed (goal.rename r) (hypothesis.rename r) why
  | finished iterations lines => finished iterations lines
  | stopped why iterations => stopped why iterations
  | proved nested goal lines iterations subSearches =>
    proved nested (goal.rename r) lines iterations subSearches
  | notProved nested goal why iterations => notProved nested (goal.rename r) why iterations

/-- The ending with the variables of a proof renamed. -/
def Ending.rename (r : String ↪ String) : Ending → Ending
  | proved lines => proved (lines.map (Line.rename r))
  | halted why => halted why
  | broken fault => broken fault

/-- The result with its variables renamed; what was counted stays. -/
def Run.rename (r : String ↪ String) (run : Run) : Run :=
  ⟨run.ending.rename r, run.stats, run.trace.map (Event.rename r)⟩

/-- What was found, with its variables renamed. -/
def Found.rename (r : String ↪ String) (found : Found) : Found :=
  ⟨found.candidates.map (Extension.rename r), found.subSearches,
    found.trace.map (Event.rename r)⟩

variable (r : String ↪ String)

theorem Extension.rename_injective : Function.Injective (Extension.rename r) := by
  rintro ⟨lead, last⟩ ⟨lead', last'⟩ h
  obtain ⟨hlead, hlast⟩ := Extension.mk.inj h
  exact congrArg₂ Extension.mk ((Line.rename_injective r).list_map hlead)
    (Line.rename_injective r hlast)

theorem Extension.rename_lines (e : Extension) :
    (e.rename r).lines = e.lines.map (Line.rename r) := by
  rw [lines, lines, List.map_append]
  rfl

theorem Found.rename_empty : Found.rename r {} = {} := by
  simp [rename]

theorem Found.rename_append (a b : Found) :
    (a.append b).rename r = (a.rename r).append (b.rename r) := by
  simp [append, rename]

/-- The first candidate that states the goal is the same one. -/
theorem Found.find?_rename (found : Found) (goal : Formula) :
    (found.rename r).candidates.find? (fun e => e.last.formula = goal.rename r)
      = (found.candidates.find? fun e => e.last.formula = goal).map (Extension.rename r) := by
  rw [rename, List.find?_map]
  congr 2
  funext e
  exact decide_eq_decide.mpr (Formula.rename_inj r)

theorem Run.fullTrace_rename (nested : Bool) (goal : Formula) (run : Run) :
    (run.rename r).fullTrace nested (goal.rename r)
      = (run.fullTrace nested goal).map (Event.rename r) := by
  rcases run with ⟨out | why | fault, stats, trace⟩
  · simp [fullTrace, answer, rename, Ending.rename, Event.rename]
  · simp [fullTrace, answer, rename, Ending.rename, Event.rename]
  · rfl

/-! ### Single steps -/

theorem pairs_map (f : Line → Line) (lines : List Line) :
    pairs (lines.map f) = (pairs lines).map fun p => (f p.1, f p.2) := by
  simp [pairs, List.flatMap_map, List.map_flatMap, Function.comp_def]

theorem modusPonens?_rename (a b : Line) :
    modusPonens? (a.rename r) (b.rename r) = (modusPonens? a b).map (Draft.rename r) := by
  rw [modusPonens?, modusPonens?, Line.rename_formula]
  cases a.formula with
  | imp f g =>
    simp only [Formula.rename, Line.rename_formula, Formula.rename_inj]
    split
    · rfl
    · rfl
  | _ => rfl

theorem modusTollens?_rename (a b : Line) :
    modusTollens? (a.rename r) (b.rename r) = (modusTollens? a b).map (Draft.rename r) := by
  rw [modusTollens?, modusTollens?, Line.rename_formula]
  cases a.formula with
  | imp f g =>
    have hdenial : b.formula.rename r = .neg (g.rename r) ↔ b.formula = .neg g :=
      Formula.rename_inj r (g := .neg g)
    simp only [Formula.rename, Line.rename_formula, hdenial]
    split
    · rfl
    · rfl
  | _ => rfl

theorem conjElims_rename (l : Line) :
    conjElims (l.rename r) = (conjElims l).map (Draft.rename r) := by
  rw [conjElims, conjElims, Line.rename_formula]
  cases l.formula <;> rfl

theorem doubleNegationElim?_rename (l : Line) :
    doubleNegationElim? (l.rename r) = (doubleNegationElim? l).map (Draft.rename r) := by
  rw [doubleNegationElim?, doubleNegationElim?, Line.rename_formula]
  cases l.formula with
  | neg a => cases a <;> rfl
  | _ => rfl

/-- The drafts from renamed lines and names are those from the lines and names. -/
theorem drafts_rename (lines : List Line) (vocabulary : List String) :
    drafts (lines.map (Line.rename r)) (vocabulary.map r)
      = (drafts lines vocabulary).map (Draft.rename r) := by
  simp only [drafts, pairs_map, List.filterMap_map, List.flatMap_map, List.map_map,
    List.map_append, List.map_filterMap, List.map_flatMap, Function.comp_def,
    modusPonens?_rename, modusTollens?_rename, conjElims_rename, doubleNegationElim?_rename]
  rfl

theorem Draft.toExtension_rename (lines : List Line) (d : Draft) :
    (d.rename r).toExtension (lines.map (Line.rename r))
      = (d.toExtension lines).map (Extension.rename r) := by
  rw [toExtension, toExtension, toLine, toLine, List.length_map, rename, Line.restsAt_rename]
  cases Line.restsAt lines d.cites with
  | error fault => rfl
  | ok rests => rfl

namespace Node

variable {search : Node → Run} {n : Node}

theorem singleSteps_rename (n : Node) :
    (n.rename r).singleSteps = n.singleSteps.map (List.map (Extension.rename r)) := by
  rw [singleSteps, singleSteps, rename, Line.vocabulary_rename, drafts_rename]
  exact mapM_map_eq (Draft.toExtension_rename r n.lines) _

theorem isComplete_rename (n : Node) : (n.rename r).isComplete = n.isComplete :=
  Line.states_rename r n.lines n.goal

/-! ### Blocks -/

theorem assuming_rename (n : Node) (hypothesis : Line) (goal : Formula) :
    (n.rename r).assuming (hypothesis.rename r) (goal.rename r)
      = (n.assuming hypothesis goal).rename r := by
  simp [assuming, rename]

theorem disjHypothesis_rename (n : Node) (l : Line) (side : Formula) :
    (n.rename r).disjHypothesis (l.rename r) (side.rename r)
      = (n.disjHypothesis l side).rename r := by
  simp [disjHypothesis, rename, Line.ofHypothesis, Line.rename]

theorem disjElimBlock_rename (n : Node) (l : Line) (first second : List Line) :
    (n.rename r).disjElimBlock (l.rename r) (first.map (Line.rename r))
        (second.map (Line.rename r))
      = (n.disjElimBlock l first second).rename r := by
  have hlead : first.map (Line.rename r)
        ++ (second.map (Line.rename r)).map (Line.renumber first.length n.lines.length)
      = (first ++ second.map (Line.renumber first.length n.lines.length)).map
          (Line.rename r) := by
    simp [Function.comp_def, Line.renumber_rename]
  simp only [disjElimBlock, Extension.rename, rename, List.length_map, hlead]
  congr 1
  rw [← List.map_cons, Line.restsOf_rename, List.map_map]
  rfl

theorem conditionalBlock_rename (n : Node) (consequent : Formula) (lead : List Line) :
    (n.rename r).conditionalBlock (consequent.rename r) (lead.map (Line.rename r))
      = (n.conditionalBlock consequent lead).map (Extension.rename r) := by
  have hfind : (n.rename r).lines.reverse.find? (fun l => l.formula = consequent.rename r)
      = (n.lines.reverse.find? fun l => l.formula = consequent).map (Line.rename r) := by
    rw [rename, ← List.map_reverse, List.find?_map]
    congr 2
    funext l
    exact decide_eq_decide.mpr (Formula.rename_inj r)
  have hblock : ∀ earlier : List Line,
      Extension.mk (lead.map (Line.rename r))
          ⟨(n.rename r).lines.length + (lead.map (Line.rename r)).length, (n.rename r).goal,
            .conditionalProof,
            Line.restsOf (lead.map (Line.rename r) ++ earlier.map (Line.rename r)),
            (earlier.map (Line.rename r) ++ lead.map (Line.rename r)).map (·.number)⟩
        = Extension.rename r
          ⟨lead, ⟨n.lines.length + lead.length, n.goal, .conditionalProof,
            Line.restsOf (lead ++ earlier), (earlier ++ lead).map (·.number)⟩⟩ := by
    intro earlier
    rw [← List.map_append, ← List.map_append, Line.restsOf_rename, List.map_map]
    simp [Extension.rename, Line.rename, rename, Function.comp_def]
  rw [conditionalBlock, conditionalBlock, Line.states_rename, hfind]
  cases Line.states lead consequent with
  | true => exact congrArg Except.ok (hblock [])
  | false =>
    cases n.lines.reverse.find? fun l => l.formula = consequent with
    | none => rfl
    | some l => exact congrArg Except.ok (hblock [l])

/-! ### Nested searches -/

/-- The search from a node renamed is the search from the node, renamed. -/
def Equivariant (r : String ↪ String) (search : Node → Run) (n : Node) : Prop :=
  search (n.rename r) = (search n).rename r

theorem branch_rename {hypothesis : Line} {goal : Formula}
    (h : Equivariant r search (n.assuming hypothesis goal)) :
    (n.rename r).branch search (hypothesis.rename r) (goal.rename r)
      = (n.branch search hypothesis goal).map
          (Prod.map (Option.map (List.map (Line.rename r))) (Array.map (Event.rename r))) := by
  rw [branch, branch, assuming_rename, h]
  simp only [Run.fullTrace_rename]
  generalize search (n.assuming hypothesis goal) = run
  rcases hending : run.ending with out | why | fault
  · simp [Run.rename, hending, Ending.rename, rename, Except.map]
  · simp [Run.rename, hending, Ending.rename, Except.map, Event.rename]
  · simp [Run.rename, hending, Ending.rename, Except.map]

theorem disjElimOn_rename (h : ∀ hypothesis goal, Equivariant r search (n.assuming hypothesis goal))
    (l : Line) :
    (n.rename r).disjElimOn search (l.rename r)
      = (n.disjElimOn search l).map (Found.rename r) := by
  rw [disjElimOn, disjElimOn, Line.rename_formula]
  cases l.formula with
  | disj a b =>
    have hside : ∀ side : Formula,
        (n.rename r).branch search ((n.rename r).disjHypothesis (l.rename r) (side.rename r))
            (n.rename r).goal
          = (n.branch search (n.disjHypothesis l side) n.goal).map
            (Prod.map (Option.map (List.map (Line.rename r))) (Array.map (Event.rename r))) := by
      intro side
      rw [disjHypothesis_rename]
      exact branch_rename r (h _ _)
    simp only [Formula.rename, hside]
    -- the right side is looked into on both sides of the equation or on neither
    rcases n.branch search (n.disjHypothesis l a) n.goal with fault | ⟨first?, trace₁⟩
    · rfl
    · rcases first? with - | first
      · rfl
      · rcases n.branch search (n.disjHypothesis l b) n.goal with fault | ⟨second?, trace₂⟩
        · rfl
        · rcases second? with - | second
          · refine congrArg Except.ok ?_
            simp [Found.rename]
          · refine congrArg Except.ok ?_
            simp [Found.rename, disjElimBlock_rename]
  | _ => exact congrArg Except.ok (Found.rename_empty r).symm

theorem disjElimsOn_rename
    (h : ∀ hypothesis goal, Equivariant r search (n.assuming hypothesis goal))
    (lines : List Line) :
    (n.rename r).disjElimsOn search (lines.map (Line.rename r))
      = (n.disjElimsOn search lines).map (Found.rename r) := by
  induction lines with
  | nil => exact congrArg Except.ok (Found.rename_empty r).symm
  | cons l rest ih =>
    rw [List.map_cons, disjElimsOn, disjElimsOn, disjElimOn_rename r h, ih]
    cases n.disjElimOn search l with
    | error fault => rfl
    | ok found =>
      cases n.disjElimsOn search rest with
      | error fault => rfl
      | ok more => exact congrArg Except.ok (Found.rename_append r found more).symm

theorem disjElims_rename
    (h : ∀ hypothesis goal, Equivariant r search (n.assuming hypothesis goal)) :
    (n.rename r).disjElims search = (n.disjElims search).map (Found.rename r) := by
  have hopen : Line.hasOpenBlock (n.rename r).lines .disjHypothesis
      = Line.hasOpenBlock n.lines .disjHypothesis := Line.hasOpenBlock_rename r n.lines _
  rw [disjElims, disjElims, isComplete_rename, hopen]
  split
  · exact congrArg Except.ok (Found.rename_empty r).symm
  · exact disjElimsOn_rename r h n.lines

theorem conditionalProofs_rename
    (h : ∀ hypothesis goal, Equivariant r search (n.assuming hypothesis goal)) :
    (n.rename r).conditionalProofs search
      = (n.conditionalProofs search).map (Found.rename r) := by
  have hopen : Line.hasOpenBlock (n.rename r).lines .conditionalHypothesis
      = Line.hasOpenBlock n.lines .conditionalHypothesis := Line.hasOpenBlock_rename r n.lines _
  have hgoal : (n.rename r).goal = n.goal.rename r := rfl
  rw [conditionalProofs, conditionalProofs, isComplete_rename, hopen, hgoal]
  cases n.goal with
  | imp a b =>
    simp only [Formula.rename]
    split
    · exact congrArg Except.ok (Found.rename_empty r).symm
    · have hhypothesis : Line.ofHypothesis (a.rename r) .conditionalHypothesis
            (n.rename r).lines.length []
          = (Line.ofHypothesis a .conditionalHypothesis n.lines.length []).rename r := by
        simp [Line.ofHypothesis, Line.rename, rename]
      rw [hhypothesis, branch_rename r (h _ _)]
      rcases n.branch search (Line.ofHypothesis a .conditionalHypothesis n.lines.length []) b with
        fault | ⟨lead?, trace⟩
      · rfl
      · rcases lead? with - | lead
        · rfl
        · show ((n.rename r).conditionalBlock (b.rename r) (lead.map (Line.rename r)) >>= _)
            = (n.conditionalBlock b lead >>= fun e => pure ⟨[e], 1, trace⟩).map (Found.rename r)
          rw [conditionalBlock_rename]
          cases n.conditionalBlock b lead with
          | error fault => rfl
          | ok e => rfl
  | _ => exact congrArg Except.ok (Found.rename_empty r).symm

theorem newOnes_rename (n : Node) (es : List Extension) :
    distinctBy (·.last.formula.fingerprint)
        ((es.map (Extension.rename r)).filter fun e =>
          !Line.states (n.rename r).lines e.last.formula)
      = (distinctBy (·.last.formula.fingerprint)
          (es.filter fun e => !Line.states n.lines e.last.formula)).map (Extension.rename r) := by
  -- the fingerprints differ, but they only save comparisons
  rw [distinctBy_eq_eraseDups, distinctBy_eq_eraseDups,
    ← eraseDups_map (Extension.rename_injective r), List.filter_map]
  congr 2
  apply List.filter_congr
  intro e _
  exact congrArg (!·) (Line.states_rename r n.lines e.last.formula)

/-- The candidates of a node renamed are those of the node, renamed. -/
theorem candidates_rename
    (h : ∀ hypothesis goal, Equivariant r search (n.assuming hypothesis goal)) :
    (n.rename r).candidates search = (n.candidates search).map (Found.rename r) := by
  rw [candidates, candidates, singleSteps_rename, disjElims_rename r h, conditionalProofs_rename r h]
  cases n.singleSteps with
  | error fault => rfl
  | ok singles =>
    cases n.disjElims search with
    | error fault => rfl
    | ok elims =>
      cases n.conditionalProofs search with
      | error fault => rfl
      | ok proofs =>
        have hblocks := Found.rename_append r elims proofs
        refine congrArg Except.ok ?_
        simp only [← hblocks]
        rw [Found.rename, ← List.map_append, newOnes_rename]
        simp [Found.rename, Event.rename, rename]

end Node

/-! ### Passes -/

theorem Node.formulas_rename (lines : List Line) :
    formulas (lines.map (Line.rename r)) = (formulas lines).map (Formula.rename r) := by
  rw [formulas, formulas, List.map_map, List.map_map]
  rfl

/-- Renamed, the states of the first collection are in the second, and the others
are not. -/
def Seen.Renames (seen seen' : Seen) : Prop :=
  ∀ state, seen'.contains (state.map (Formula.rename r)) = seen.contains state

theorem Seen.Renames.insert {seen seen' : Seen} (h : seen.Renames r seen') (state : List Formula) :
    (seen.insert state).Renames r (seen'.insert (state.map (Formula.rename r))) := by
  intro other
  have hperm : (state.map (Formula.rename r)).isPerm (other.map (Formula.rename r))
      = state.isPerm other := by
    rw [Bool.eq_iff_iff, List.isPerm_iff, List.isPerm_iff,
      List.map_perm_map_iff (Formula.rename_injective r)]
  rw [contains_insert, contains_insert, hperm, h]

namespace Frontier

open Node

/-- The second frontier is the first with its variables renamed. -/
structure Renames (f g : Frontier) : Prop where
  queue : g.queue.toList = f.queue.toList.map (List.map (Line.rename r))
  seen : Option.Rel (Seen.Renames r) f.seen g.seen
  stats : g.stats = f.stats
  lastLength : g.lastLength = f.lastLength
  trace : g.trace = f.trace.map (Event.rename r)

variable {r} {f g : Frontier} {search : Node → Run} {goal : Formula} {settings : Settings}
  {head : Node}

theorem Renames.finish (h : f.Renames r g) (lines : List Line) :
    g.finish (lines.map (Line.rename r)) = (f.finish lines).rename r := by
  simp [Frontier.finish, Run.rename, Ending.rename, Event.rename, h.stats, h.trace]

theorem Renames.halt (h : f.Renames r g) (why : Halt) :
    g.halt why = (f.halt why).rename r := by
  simp [Frontier.halt, Run.rename, Ending.rename, Event.rename, h.stats, h.trace]

theorem Renames.breakOff (h : f.Renames r g) (fault : Fault) :
    g.breakOff fault = (f.breakOff fault).rename r := by
  simp [Frontier.breakOff, Run.rename, Ending.rename, h.stats, h.trace]

theorem Renames.countIteration (h : f.Renames r g) :
    f.countIteration.Renames r g.countIteration :=
  ⟨h.queue, h.seen, by simp [Frontier.countIteration, h.stats], h.lastLength, h.trace⟩

theorem Renames.countFound (h : f.Renames r g) (found : Found) :
    (f.countFound found).Renames r (g.countFound (found.rename r)) := by
  refine ⟨h.queue, h.seen, ?_, h.lastLength, ?_⟩
  · simp [Frontier.countFound, Found.rename, h.stats]
  · simp [Frontier.countFound, Found.rename, h.trace]

theorem Renames.enqueue (h : f.Renames r g) (child : List Line) :
    (f.enqueue child).Renames r (g.enqueue (child.map (Line.rename r))) := by
  -- whether the child is queued depends on the states seen, which are only related
  have hseen := h.seen
  rw [Frontier.enqueue, Frontier.enqueue]
  generalize f.seen = known at hseen
  generalize g.seen = known' at hseen
  cases hseen with
  | none =>
    refine ⟨?_, .none, ?_, h.lastLength, h.trace⟩
    · simp [h.queue]
    · simp [h.stats]
  | @some seen seen' hrenames =>
    have hmem : seen'.contains (formulas (child.map (Line.rename r)))
        = seen.contains (formulas child) := by
      rw [formulas_rename]
      exact hrenames _
    simp only [hmem]
    split
    · exact ⟨h.queue, .some hrenames, by simp [h.stats], h.lastLength, h.trace⟩
    · refine ⟨?_, ?_, ?_, h.lastLength, h.trace⟩
      · simp [h.queue]
      · rw [formulas_rename]
        exact .some (hrenames.insert r _)
      · simp [h.stats]

theorem Renames.foldl_enqueue (h : f.Renames r g) (lines : List Line) (es : List Extension) :
    (es.foldl (fun f e => f.enqueue (lines ++ e.lines)) f).Renames r
      ((es.map (Extension.rename r)).foldl
        (fun g e => g.enqueue (lines.map (Line.rename r) ++ e.lines)) g) := by
  induction es generalizing f g with
  | nil => exact h
  | cons e es ih =>
    rw [List.map_cons, List.foldl_cons, List.foldl_cons, Extension.rename_lines,
      ← List.map_append]
    exact ih (h.enqueue (lines ++ e.lines))

/-- Nodes are taken from both queues together. -/
theorem Renames.exists_pop? {lines : List Line} {queue : Queue (List Line)} (h : f.Renames r g)
    (hpop : f.queue.pop? = some (lines, queue)) :
    ∃ queue', g.queue.pop? = some (lines.map (Line.rename r), queue') ∧
      Renames r { f with queue, lastLength := lines.length }
        { g with queue := queue', lastLength := lines.length } := by
  obtain ⟨queue', hpop', hrest⟩ : ∃ queue',
      g.queue.pop? = some (lines.map (Line.rename r), queue') ∧
        queue'.toList = queue.toList.map (List.map (Line.rename r)) := by
    apply Queue.exists_pop?
    rw [h.queue, Queue.toList_eq_of_pop? hpop, List.map_cons]
  exact ⟨queue', hpop', hrest, h.seen, h.stats, rfl, h.trace⟩

/-- The second pass does what the first does, with variables renamed. -/
inductive Pass.Renames (r : String ↪ String) : Pass → Pass → Prop
  | ends (run : Run) : Renames r (.ends run) (.ends (run.rename r))
  | goesOn (left : Nat) {f g : Frontier} (h : f.Renames r g) :
      Renames r (.goesOn left f) (.goesOn left g)

/-- A pass that starts from a renamed frontier. -/
theorem Renames.pass (h : f.Renames r g) (left : Nat)
    (hcandidates : ∀ lines rest, Expands goal settings f lines rest →
      (Node.rename r ⟨lines, goal, settings⟩).candidates search
        = (Node.candidates search ⟨lines, goal, settings⟩).map (Found.rename r)) :
    Pass.Renames r (f.pass search goal settings left)
      (g.pass search (goal.rename r) settings left) := by
  rw [Frontier.pass, Frontier.pass]
  rcases hpop : f.queue.pop? with - | ⟨lines, queue⟩
  · have hnone : g.queue.pop? = none := by
      rw [Queue.pop?_eq_none_iff, h.queue, Queue.pop?_eq_none_iff.mp hpop, List.map_nil]
    simp only [hnone, h.lastLength, h.halt]
    exact .ends _
  · obtain ⟨queue', hpop', htaken⟩ := h.exists_pop? hpop
    simp only [hpop', Line.states_rename, List.length_map]
    by_cases hstates : Line.states lines goal
    · simp only [hstates, if_true, htaken.finish]
      exact .ends _
    · by_cases hlong : settings.maxLines < lines.length
      · simp only [hstates, hlong, if_true, if_false, Bool.false_eq_true]
        exact .goesOn left ⟨htaken.queue, h.seen, by simp [h.stats], rfl, h.trace⟩
      · simp only [hstates, hlong, if_false, Bool.false_eq_true]
        rcases left with - | left
        · simp only [htaken.countIteration.halt]
          exact .ends _
        · have hfound := hcandidates lines queue.toList
            ⟨Queue.toList_eq_of_pop? hpop, by simpa using hstates, Nat.le_of_not_lt hlong⟩
          rw [Node.rename] at hfound
          simp only [hfound]
          rcases Node.candidates search ⟨lines, goal, settings⟩ with fault | found
          · simp only [Except.map, htaken.countIteration.breakOff]
            exact .ends _
          · simp only [Except.map, Found.find?_rename]
            have hcounted := htaken.countIteration.countFound found
            rcases hfind : found.candidates.find? (fun e => decide (e.last.formula = goal)) with
              - | e
            · simp only [hfind]
              exact .goesOn left (hcounted.foldl_enqueue lines found.candidates)
            · simp only [hfind, Option.map_some, Extension.rename_lines, ← List.map_append,
                hcounted.finish]
              exact .ends _

/-- A run that starts from a renamed frontier. -/
theorem Renames.run (h : f.Renames r g)
    (hnested : ∀ lines hypothesis goal, head.Expandable lines →
      Equivariant r search (assuming ⟨lines, head.goal, head.settings⟩ hypothesis goal))
    (left : Nat) (hf : Holds head (fun _ => True) f) :
    g.run search (head.goal.rename r) head.settings left
      = (f.run search head.goal head.settings left).rename r := by
  have hpassed : ∀ f, Holds head (fun _ => True) f → ∀ lines rest,
      Expands head.goal head.settings f lines rest →
      (Node.rename r ⟨lines, head.goal, head.settings⟩).candidates search
        = (Node.candidates search ⟨lines, head.goal, head.settings⟩).map (Found.rename r) := by
    intro f hf lines rest hexp
    exact candidates_rename r fun hypothesis goal =>
      hnested lines hypothesis goal (hexp.expandable hf).1
  induction left, f using run_pass_induction search head.goal head.settings generalizing g with
  | ends left f run hpass =>
    have hrenames := h.pass left (hpassed f hf)
    rw [hpass] at hrenames
    rw [run_eq_pass]
    generalize g.pass search (head.goal.rename r) head.settings left = p at hrenames
    cases hrenames with
    | ends => rfl
  | goesOn left f left' f' hpass ih =>
    have hrenames := h.pass left (hpassed f hf)
    rw [hpass] at hrenames
    rw [run_eq_pass]
    generalize g.pass search (head.goal.rename r) head.settings left = p at hrenames
    cases hrenames with
    | goesOn _ h' =>
      exact ih h' (hf.pass head.keeps_true (hpass ▸ passed_pass search head.goal head.settings left f))

theorem renames_start (head : Node) : (start head).Renames r (start (head.rename r)) := by
  refine ⟨rfl, ?_, rfl, List.length_map _, ?_⟩
  · simp only [start, Node.rename, formulas_rename]
    split
    · refine .some (Seen.Renames.insert r ?_ _)
      intro state
      simp
    · exact .none
  · simp [start]

end Frontier

/-- **The search from a node renamed is the search from the node, renamed.** -/
theorem Node.search_rename (head : Node) : Equivariant r Node.search head := by
  induction head using search_induction with
  | step head ih =>
    rw [Equivariant, search_eq, search_eq, searchWith, searchWith]
    apply (Frontier.renames_start head).run _ _ (Frontier.holds_start trivial)
    intro lines hypothesis goal hlines
    exact ih lines hypothesis goal hlines.length_le hlines.short

/-- **The search does not depend on what variables are called.**  If the variables
of the head and its goal are renamed, with different names kept different, the
search gives the same result with its variables renamed: the same counters, and
the same ending.  From lines numbered by their places that is a proof whose lines
have the same numbers, rules, citations and assumption sets in the same order,
or the same reason to halt. -/
theorem search_equivariant (r : String ↪ String) (head : Node) :
    (head.rename r).search = head.search.rename r ∧
    (Line.WellNumbered head.lines →
      (head.rename r).search.stats = head.search.stats ∧
      ((∃ out, head.search.ending = .proved out ∧
          (head.rename r).search.ending = .proved (out.map (Line.rename r))) ∨
        ∃ why, head.search.ending = .halted why ∧
          (head.rename r).search.ending = .halted why)) := by
  have hrename : (head.rename r).search = head.search.rename r := head.search_rename r
  refine ⟨hrename, fun hnum => ?_⟩
  rw [hrename]
  refine ⟨rfl, ?_⟩
  rcases hending : head.search.ending with out | why | fault
  · exact .inl ⟨out, rfl, by rw [Run.rename, hending, Ending.rename]⟩
  · exact .inr ⟨why, rfl, by rw [Run.rename, hending, Ending.rename]⟩
  · exact absurd hending ((head.answers_search hnum).unbroken fault)

/-- An implication whose antecedent is to be strengthened, which takes a conditional
proof. -/
def strengthened (p q r : String) : Node :=
  ⟨Line.ofAssumptions [.imp (.var p) (.var q)], .imp (.conj (.var p) (.var r)) (.var q), default⟩

/-- The lines that prove `strengthened`. -/
def strengthenedLines (p q r : String) : List Line :=
  [⟨0, .imp (.var p) (.var q), .assumption, .ofList [0], []⟩,
   ⟨1, .conj (.var p) (.var r), .conditionalHypothesis, .ofList [1], []⟩,
   ⟨2, .var p, .conjElim, .ofList [1], [1]⟩,
   ⟨3, .var q, .modusPonens, .ofList [0, 1], [0, 2]⟩,
   ⟨4, .imp (.conj (.var p) (.var r)) (.var q), .conditionalProof, .ofList [0, 1], [1, 2, 3]⟩]

/-- The names `P` and `R` exchanged, which turns their order round. -/
def exchanged : String ↪ String := (Equiv.swap "P" "R").toEmbedding

/-- With the names exchanged the same proof is found, and the counters agree. -/
theorem search_equivariant_exchanged :
    (strengthened "P" "Q" "R").rename exchanged = strengthened "R" "Q" "P" ∧
    (strengthened "P" "Q" "R").search.ending = .proved (strengthenedLines "P" "Q" "R") ∧
    (strengthened "R" "Q" "P").search.ending = .proved (strengthenedLines "R" "Q" "P") ∧
    (strengthened "R" "Q" "P").search.stats = (strengthened "P" "Q" "R").search.stats := by
  have hrename : (strengthened "P" "Q" "R").rename exchanged = strengthened "R" "Q" "P" := rfl
  have hending : (strengthened "P" "Q" "R").search.ending
      = .proved (strengthenedLines "P" "Q" "R") := by
    decide +kernel
  obtain ⟨hstats, h⟩ := (search_equivariant exchanged (strengthened "P" "Q" "R")).2
    (Line.wellNumbered_ofAssumptions _)
  rw [hrename] at hstats h
  refine ⟨hrename, hending, ?_, hstats⟩
  rcases h with ⟨out, hout, hrenamed⟩ | ⟨why, hwhy, -⟩
  · obtain rfl := Ending.proved.inj (hout.symm.trans hending)
    exact hrenamed
  · cases hwhy.symm.trans hending

end NaturalDeduction
