/-
How searches halt.

A search that finds no proof halts at the bound on lines, with its budget of
expansions spent, or with nothing left to try.  Which of these it is can be read
off its counters and its head.

* The bound on lines.  Nodes wait by length, so once a node is discarded all
  that waits is too long as well, and the search ends when it has discarded
  everything (`Accounted`).
* The budget.  Expansions counted and expansions left always add up to the
  budget, and only a search that wants one more than the budget halts there.
* Nothing left to try.  From a head with a line this does not happen.  A node
  with a line always has a candidate, since the double negation of a deepest
  formula is new (`exists_new_step`).  An account of states may skip some of the
  children, but never all of a level: a state of the next length that was seen
  before is the state of a node that still waits (`Ahead`).  So the queue only
  runs empty behind the bound on lines (`Alive`).

Main result: `search_halts_iff`.
-/
import Mathlib.Data.Finset.Max
import NaturalDeduction.Proofs.Search.Finish
import NaturalDeduction.Proofs.Search.Levels

namespace NaturalDeduction

/-! ### A node with a line has a candidate -/

theorem Stats.addFound_deadEnds {s : Stats} {found : Found} (h : found.candidates ≠ []) :
    (s.addFound found).deadEnds = s.deadEnds := by
  simp [Stats.addFound, h]

/-- On lines numbered by their places some step states a new formula. -/
theorem exists_new_step {lines : List Line} (goal : Formula) (hnum : Line.WellNumbered lines)
    (hne : lines ≠ []) : ∃ l, IsStep lines goal l ∧ l.formula ∉ Node.formulas lines := by
  have hformulas : (Node.formulas lines).toFinset.Nonempty := by
    rw [List.toFinset_nonempty_iff, Node.formulas]
    simpa using hne
  obtain ⟨f, hf, hdeepest⟩ := Finset.exists_max_image _ Formula.depth hformulas
  rw [List.mem_toFinset] at hf
  obtain ⟨l, hl, hlf⟩ := (OneStep.negIntro hf : OneStep _ goal _).exists_isStep hnum
  refine ⟨l, hl, fun hmem => ?_⟩
  -- two negations make a formula deeper than the deepest
  have hdepth := hdeepest l.formula (List.mem_toFinset.mpr hmem)
  rw [hlf] at hdepth
  simp only [Formula.depth] at hdepth
  omega

namespace Node

variable {search : Node → Run} {n : Node} {found : Found}

theorem candidates_ne_nil (hnum : Line.WellNumbered n.lines) (hne : n.lines ≠ [])
    (h : n.candidates search = .ok found) : found.candidates ≠ [] := by
  obtain ⟨l, hl, hnew⟩ := exists_new_step n.goal hnum hne
  apply List.ne_nil_of_mem
  exact (mem_candidates_iff h).mpr ⟨.single hl, isNew_iff.mpr hnew⟩

/-- Without lines no step is to be had. -/
theorem children_nil (goal : Formula) : children goal [] = [] := by
  rfl

end Node

namespace Frontier

open Node

variable {search : Node → Run} {head : Node} {left left' : Nat} {f g : Frontier}

/-! ### The account of states does not empty a level -/

/-- A state that was seen and is longer than the node taken last has the length
of a node that waits. -/
def Ahead (f : Frontier) : Prop :=
  ∀ seen, f.seen = some seen → ∀ state, seen.contains state = true →
    f.lastLength < state.length → ∃ lines ∈ f.queue.toList, lines.length = state.length

theorem ahead_start (head : Node) : (start head).Ahead := by
  intro seen hseen state hstate hlt
  have hperm : (formulas head.lines).isPerm state = true := by
    rw [start] at hseen
    split at hseen
    · obtain rfl := Option.some.inj hseen
      simpa using hstate
    · cases hseen
  -- the only state seen is that of the head
  have hlength : (formulas head.lines).length = state.length :=
    (List.isPerm_iff.mp hperm).length_eq
  rw [formulas, List.length_map] at hlength
  exact absurd hlt (by simp [start, hlength])

/-- What is seen among children was seen before or is the state of one that is
admitted. -/
theorem contains_noted {seen seen' : Seen} {children : List (List Line)} {state : List Formula}
    (hnoted : noted (some seen) children = some seen') (h : seen'.contains state = true) :
    seen.contains state = true ∨
      ∃ child ∈ admitted (some seen) children, child.length = state.length := by
  induction children generalizing seen with
  | nil =>
    obtain rfl := Option.some.inj hnoted
    exact .inl h
  | cons child rest ih =>
    by_cases hmem : seen.contains (formulas child)
    · rw [noted, if_pos hmem] at hnoted
      rw [admitted, if_pos hmem]
      exact ih hnoted
    · rw [noted, if_neg hmem] at hnoted
      rw [admitted, if_neg hmem]
      rcases ih hnoted with hstate | ⟨k, hk, hlength⟩
      · rw [Seen.contains_insert, Bool.or_eq_true] at hstate
        rcases hstate with hperm | hstate
        · right
          refine ⟨child, List.mem_cons_self, ?_⟩
          rw [← (List.isPerm_iff.mp hperm).length_eq, formulas, List.length_map]
        · exact .inl hstate
      · exact .inr ⟨k, List.mem_cons_of_mem child hk, hlength⟩

/-- A node of another length than the front stands behind it. -/
theorem Ahead.exists_behind {lines : List Line} {rest : List (List Line)} {seen : Seen}
    {state : List Formula} (hf : f.Ahead) (hlevel : f.Leveled)
    (hqueue : f.queue.toList = lines :: rest) (hseen : f.seen = some seen)
    (hstate : seen.contains state = true) (hlt : lines.length < state.length) :
    ∃ k ∈ rest, k.length = state.length := by
  have hlast : f.lastLength ≤ lines.length := hlevel.last lines (by simp [hqueue])
  obtain ⟨k, hk, hlength⟩ := hf seen hseen state hstate (by omega)
  rw [hqueue] at hk
  rcases List.mem_cons.mp hk with rfl | hk
  · omega
  · exact ⟨k, hk, hlength⟩

theorem Ahead.pass (hf : f.Ahead) (hlevel : f.Leveled)
    (h : Passed search head.goal head.settings left f (.goesOn left' g)) : g.Ahead := by
  intro seen hseen state hstate hlt
  cases h with
  | discarded hqueue _ _ hgseen hlast =>
    rw [hlast] at hlt
    exact hf.exists_behind hlevel hqueue (hgseen ▸ hseen) hstate hlt
  | @expanded _ _ _ lines rest found hexp _ _ hqueue hgseen hlast =>
    rw [hlast] at hlt
    rw [hqueue]
    rcases hfseen : f.seen with - | old
    · simp [hgseen, hfseen] at hseen
    · rw [hgseen, hfseen] at hseen
      rcases contains_noted hseen hstate with hold | ⟨child, hchild, hlength⟩
      · obtain ⟨k, hk, hlength⟩ := hf.exists_behind hlevel hexp.queue hfseen hold hlt
        exact ⟨k, List.mem_append_left _ hk, hlength⟩
      · exact ⟨child, List.mem_append_right rest hchild, hlength⟩

/-- Behind a node that has children the queue is not empty, even if all of the
children are skipped. -/
theorem Ahead.queue_ne_nil {lines : List Line} {rest children : List (List Line)}
    (hf : f.Ahead) (hlevel : f.Leveled) (hqueue : f.queue.toList = lines :: rest)
    (hne : children ≠ []) (hlength : ∀ child ∈ children, child.length = lines.length + 1) :
    rest ++ admitted f.seen children ≠ [] := by
  obtain ⟨child, more, rfl⟩ := List.exists_cons_of_ne_nil hne
  rcases hseen : f.seen with - | seen
  · simp
  · by_cases hmem : seen.contains (formulas child)
    · -- the state of the first child was seen, so a node of its length waits
      have hchild := hlength child List.mem_cons_self
      have hlt : lines.length < (formulas child).length := by
        rw [formulas, List.length_map]
        omega
      obtain ⟨k, hk, -⟩ := hf.exists_behind hlevel hqueue hseen hmem hlt
      exact List.ne_nil_of_mem (List.mem_append_left _ hk)
    · rw [admitted, if_neg hmem]
      simp

/-! ### The counters of a run -/

/-- The counters agree with the budget and with what was discarded. -/
structure Accounted (head : Node) (left : Nat) (f : Frontier) : Prop where
  budget : f.stats.iterations + left = head.settings.iterations
  discarded : 0 < f.stats.overLength → head.settings.maxLines < f.lastLength
  emptied : f.queue.toList = [] → head.settings.maxLines < f.lastLength →
    0 < f.stats.overLength

theorem accounted_start (head : Node) :
    Accounted head head.settings.iterations (start head) where
  budget := Nat.zero_add _
  discarded := by simp [start]
  emptied := by simp [start]

/-- While a node can be expanded, none has been discarded. -/
theorem Accounted.overLength_eq_zero {lines : List Line} {rest : List (List Line)}
    (hf : Accounted head left f) (hlevel : f.Leveled)
    (hexp : Expands head.goal head.settings f lines rest) : f.stats.overLength = 0 := by
  -- the node taken last is no longer than the front, which is within the bound
  have hlast : f.lastLength ≤ lines.length := hlevel.last lines (by simp [hexp.queue])
  have hshort := hexp.short
  have hdiscarded := hf.discarded
  omega

theorem Accounted.pass (hf : Accounted head left f) (hlevel : f.Leveled)
    (h : Passed search head.goal head.settings left f (.goesOn left' g)) :
    Accounted head left' g := by
  have hbudget := hf.budget
  cases h with
  | discarded _ _ hlong _ hlast hstats =>
    constructor
    · rw [hstats]
      exact hbudget
    · intro _
      rw [hlast]
      exact hlong
    · intro _ _
      rw [hstats]
      exact Nat.succ_pos _
  | expanded hexp _ _ _ _ hlast hstats =>
    have hzero := hf.overLength_eq_zero hlevel hexp
    have hshort := hexp.short
    constructor
    · rw [hstats]
      show f.stats.iterations + 1 + left' = head.settings.iterations
      omega
    · intro hpos
      rw [hstats] at hpos
      exact absurd hzero (Nat.pos_iff_ne_zero.mp hpos)
    · intro _ hlong
      omega

/-- What the counters of a result tell about how the run halted. -/
structure Tells (head : Node) (r : Run) : Prop where
  maximumLines : r.ending = .halted .maximumLines ↔ 0 < r.stats.overLength
  maximumIteration :
    r.ending = .halted .maximumIteration ↔ r.stats.iterations = head.settings.iterations + 1

/-- A run that ends at a node it took up halts there exactly if no expansion was
left. -/
theorem tells_of_taken {r : Run} (left : Nat) (hzero : r.stats.overLength = 0)
    (hlines : r.ending ≠ .halted .maximumLines)
    (hspent : r.ending = .halted .maximumIteration ↔ left = 0)
    (hbudget : r.stats.iterations + left = head.settings.iterations + 1) : Tells head r := by
  constructor
  · rw [hzero]
    exact iff_of_false hlines (Nat.lt_irrefl 0)
  · rw [hspent]
    omega

/-- The run of an incomplete head tells how it halted. -/
theorem run_tells (hf : Accounted head left f) (hlevel : f.Leveled)
    (hopen : Holds head (fun lines => head.goal ∉ formulas lines) f) :
    Tells head (f.run search head.goal head.settings left) := by
  induction left, f using run_induction search head.goal head.settings with
  | goesOn left f left' g hpass ih =>
    exact ih (hf.pass hlevel hpass) (hlevel.pass hpass)
      (hopen.pass head.keeps_incomplete hpass)
  | ends left f r hpass =>
    have hbudget := hf.budget
    cases hpass with
    | exhausted hqueue hr hstats =>
      -- what the run looks at when nothing is left is what was discarded
      have hlong : head.settings.maxLines < f.lastLength ↔ 0 < r.stats.overLength := by
        rw [hstats]
        exact ⟨hf.emptied hqueue, hf.discarded⟩
      constructor
      · rw [hr, ← hlong]
        split
        · next h => simp [h]
        · next h => simp [h]
      · rw [hr, hstats]
        apply iff_of_false
        · split
          · simp
          · simp
        · omega
    | @complete _ _ _ lines rest hqueue hstates =>
      exact absurd (states_eq_true_iff.mp hstates) (hopen lines (by simp [hqueue])).2
    | spent hexp hr hstats =>
      apply tells_of_taken 0
      · rw [hstats]
        exact hf.overLength_eq_zero hlevel hexp
      · simp [hr]
      · simp [hr]
      · rw [hstats]
        exact congrArg (· + 1) hbudget
    | @broke left _ _ _ _ _ hexp _ hr hstats =>
      apply tells_of_taken (left + 1)
      · rw [hstats]
        exact hf.overLength_eq_zero hlevel hexp
      · simp [hr]
      · simp [hr]
      · rw [hstats]
        show f.stats.iterations + 1 + (left + 1) = head.settings.iterations + 1
        omega
    | @finished left _ _ _ _ _ _ hexp _ _ hr hstats =>
      apply tells_of_taken (left + 1)
      · rw [hstats]
        exact hf.overLength_eq_zero hlevel hexp
      · simp [hr]
      · simp [hr]
      · rw [hstats]
        show f.stats.iterations + 1 + (left + 1) = head.settings.iterations + 1
        omega

/-! ### Searches from a head with a line -/

/-- Nothing was a dead end so far, and nothing will be. -/
structure Alive (head : Node) (f : Frontier) : Prop where
  deadEnds : f.stats.deadEnds = 0
  ahead : f.Ahead
  waits : f.queue.toList = [] → head.settings.maxLines < f.lastLength

theorem alive_start (head : Node) : Alive head (start head) where
  deadEnds := rfl
  ahead := ahead_start head
  waits := by simp [start]

/-- In a search from a head with lines numbered by their places, an expanded node
has a candidate. -/
theorem Expands.candidates_ne_nil {lines : List Line} {rest : List (List Line)} {found : Found}
    (hexp : Expands head.goal head.settings f lines rest) (hne : head.lines ≠ [])
    (hnum : Holds head Line.WellNumbered f)
    (hfound : candidates search ⟨lines, head.goal, head.settings⟩ = .ok found) :
    found.candidates ≠ [] := by
  obtain ⟨hlines, hlinesNum⟩ := hexp.expandable hnum
  apply Node.candidates_ne_nil hlinesNum _ hfound
  rintro rfl
  exact hne (List.prefix_nil.mp hlines.extends_head)

theorem Alive.pass (hf : Alive head f) (hne : head.lines ≠ []) (hlevel : f.Leveled)
    (hnum : Holds head Line.WellNumbered f)
    (h : Passed search head.goal head.settings left f (.goesOn left' g)) : Alive head g := by
  have hahead := hf.ahead.pass hlevel h
  have hdead := hf.deadEnds
  cases h with
  | discarded _ _ hlong _ hlast hstats =>
    refine ⟨?_, hahead, ?_⟩
    · rw [hstats]
      exact hdead
    · intro _
      rw [hlast]
      exact hlong
  | expanded hexp hfound hnone hqueue _ _ hstats =>
    have hcandidates := hexp.candidates_ne_nil hne hnum hfound
    refine ⟨?_, hahead, ?_⟩
    · rw [hstats]
      exact (Stats.addFound_deadEnds hcandidates).trans hdead
    · -- the children may all be skipped, but then others of their length wait
      intro hempty
      rw [hqueue] at hempty
      refine absurd hempty (hf.ahead.queue_ne_nil hlevel hexp.queue ?_ ?_)
      · simpa using hcandidates
      · exact fun child hchild => length_of_mem_children hfound hnone hchild

/-- The run from a head with a line meets no dead end. -/
theorem run_alive (hf : Alive head f) (hne : head.lines ≠ []) (hlevel : f.Leveled)
    (hnum : Holds head Line.WellNumbered f) :
    (f.run search head.goal head.settings left).stats.deadEnds = 0 ∧
      (f.run search head.goal head.settings left).ending ≠ .halted .deadEnd := by
  induction left, f using run_induction search head.goal head.settings with
  | goesOn left f left' g hpass ih =>
    exact ih (hf.pass hne hlevel hnum hpass) (hlevel.pass hpass)
      (hnum.pass head.keeps_wellNumbered hpass)
  | ends left f r hpass =>
    have hdead := hf.deadEnds
    cases hpass with
    | exhausted hqueue hr hstats =>
      -- the queue ran empty behind the bound on lines
      rw [if_pos (hf.waits hqueue)] at hr
      simp [hr, hstats, hdead]
    | complete _ _ hr hstats => simp [hr, hstats, hdead]
    | spent _ hr hstats | broke _ _ hr hstats =>
      simp [hr, hstats, Stats.addIteration, hdead]
    | finished hexp hfound _ hr hstats =>
      have hcandidates := hexp.candidates_ne_nil hne hnum hfound
      rw [hr, hstats, Stats.addFound_deadEnds hcandidates]
      simp [Stats.addIteration, hdead]

end Frontier

namespace Node

open Frontier

variable {head : Node}

/-- A search whose head states the goal ends before it counts anything. -/
theorem search_of_complete (h : head.goal ∈ formulas head.lines) :
    head.search.ending = .proved head.lines ∧ head.search.stats = {} := by
  have hstates : Line.states head.lines head.goal = true := states_eq_true_iff.mpr h
  obtain ⟨queue, hpop, -⟩ := Queue.exists_pop? (q := (start head).queue) (l := []) rfl
  rw [search_eq, searchWith, run_eq_pass, Frontier.pass, hpop]
  simp only [hstates, if_true]
  exact ⟨rfl, rfl⟩

/-- **The counters of a search tell how it halted.** -/
theorem search_tells (head : Node) : Tells head head.search := by
  by_cases hgoal : head.goal ∈ formulas head.lines
  · obtain ⟨hending, hstats⟩ := search_of_complete hgoal
    constructor
    · simp [hending, hstats]
    · simp [hending, hstats]
  · rw [search_eq, searchWith]
    exact run_tells (accounted_start head) (leveled_start head) (holds_start hgoal)

theorem search_alive (hnum : Line.WellNumbered head.lines) (hne : head.lines ≠ []) :
    head.search.stats.deadEnds = 0 ∧ head.search.ending ≠ .halted .deadEnd := by
  rw [search_eq, searchWith]
  exact run_alive (alive_start head) hne (leveled_start head) (holds_start hnum)

/-- A search from no lines that does not finish comes to a dead end. -/
theorem search_of_no_lines (hnil : head.lines = [])
    (h : ∀ out, head.search.ending ≠ .proved out) : head.search.ending = .halted .deadEnd := by
  obtain ⟨left, hleft⟩ := Nat.exists_eq_add_of_lt head.settings.iterations_pos
  have hexp : Expands head.goal head.settings (start head) [] [] := by
    refine ⟨?_, rfl, Nat.zero_le _⟩
    rw [← hnil]
    rfl
  rw [search_eq, searchWith, hleft] at h ⊢
  rw [Nat.zero_add] at h ⊢
  have hnum : Line.WellNumbered [] := by simp [Line.WellNumbered]
  rcases run_of_front left hexp hnum with ⟨-, out, hout⟩ | ⟨-, g, hqueue, -, hlast, hrun⟩
  · exact absurd hout (h out)
  · -- there are no children, and no bound on lines is below zero
    rw [children_nil, List.nil_append] at hqueue
    rw [hrun, run_of_empty hqueue, hlast]
    rfl

end Node

/-! ### Ways to halt -/

theorem Run.status_eq_halted_iff {r : Run} {why : Halt} :
    r.status = .halted why ↔ r.ending = .halted why := by
  constructor
  · exact Run.ending_of_status
  · intro h
    rw [Run.status, h]

theorem Run.status_eq_finished_iff {r : Run} :
    r.status = .finished ↔ ∃ out, r.ending = .proved out := by
  constructor
  · exact Run.exists_proved
  · rintro ⟨out, h⟩
    rw [Run.status, h]

/-- **Why a search halts can be read off its counters and its head.**  It halts at
the bound on lines exactly if it discarded a node, with its budget spent exactly
if it took up one node more than the budget, and with nothing left to try
exactly if it had no lines to begin with and does not finish. -/
theorem search_halts_iff (head : Node) (hnum : Line.WellNumbered head.lines) :
    (head.search.status = .halted .maximumLines ↔ 0 < head.search.stats.overLength) ∧
    (head.search.status = .halted .maximumIteration ↔
      head.search.stats.iterations = head.settings.iterations + 1) ∧
    (head.search.status = .halted .deadEnd ↔
      head.lines = [] ∧ head.search.status ≠ .finished) ∧
    (head.lines ≠ [] → head.search.stats.deadEnds = 0) := by
  have htells := head.search_tells
  refine ⟨?_, ?_, ⟨?_, ?_⟩, fun hne => (Node.search_alive hnum hne).1⟩
  · rw [Run.status_eq_halted_iff]
    exact htells.maximumLines
  · rw [Run.status_eq_halted_iff]
    exact htells.maximumIteration
  · intro hdead
    refine ⟨?_, by simp [hdead]⟩
    by_contra hne
    exact (Node.search_alive hnum hne).2 (Run.status_eq_halted_iff.mp hdead)
  · rintro ⟨hnil, hopen⟩
    rw [Run.status_eq_halted_iff]
    apply Node.search_of_no_lines hnil
    intro out hout
    exact hopen (Run.status_eq_finished_iff.mpr ⟨out, hout⟩)

/-- A goal that does not follow, under a bound of two lines and with states
accounted for. -/
def hopelessGoal (assumptions : List Formula) (spare : Nat) : Node :=
  ⟨Line.ofAssumptions assumptions, .var "Q",
    { maxLines := 2, iterations := spare + 1, subMaxLines := 1, subIterations := 1
      dedupe := .bool true, maxLines_pos := Nat.two_pos, iterations_pos := Nat.succ_pos spare
      subMaxLines_pos := Nat.one_pos, subIterations_pos := Nat.one_pos }⟩

theorem search_halts_iff_hopeless :
    0 < (hopelessGoal [.var "P"] 30).search.stats.overLength ∧
    (hopelessGoal [.var "P"] 30).search.stats.deadEnds = 0 ∧
    (hopelessGoal [.var "P"] 1).search.stats.iterations = 3 ∧
    (hopelessGoal [] 30).search.status = .halted .deadEnd := by
  obtain ⟨hlines, -, -, hdead⟩ := search_halts_iff (hopelessGoal [.var "P"] 30)
    (Line.wellNumbered_ofAssumptions _)
  obtain ⟨-, hbudget, -, -⟩ := search_halts_iff (hopelessGoal [.var "P"] 1)
    (Line.wellNumbered_ofAssumptions _)
  obtain ⟨-, -, hnothing, -⟩ := search_halts_iff (hopelessGoal [] 30)
    (Line.wellNumbered_ofAssumptions _)
  refine ⟨hlines.mp ?_, hdead ?_, hbudget.mp ?_, hnothing.mpr ⟨rfl, ?_⟩⟩
  · decide +kernel
  · exact List.cons_ne_nil _ _
  · decide +kernel
  · decide +kernel

end NaturalDeduction
