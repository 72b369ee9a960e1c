/-
Safety of the search.

A search looks lines up by their numbers, cuts the lines of a branch out of what
a nested search has proved, and looks for the consequent of a conditional proof
among the earlier lines.  Any of this could fail on lines from outside; a fault
would then break the search off, however deep it is nested.

It is enough that the lines of the head are numbered by their places.  Then so
are the lines of every node that is examined, in the search and in all searches
nested in it (`NestedAt.wellNumbered`), and at such a node nothing is missing
(`workable_of_wellNumbered`).  What the lines cite, what they rest on and by which
rules they stand there does not matter.

Main result: `search_safe`.
-/
import NaturalDeduction.Attempt.Basic
import NaturalDeduction.Proofs.Search.Depth
import NaturalDeduction.Proofs.Search.Derived

namespace NaturalDeduction

namespace Node

variable {n head : Node}

/-- Nothing is missing when the candidates of a node are worked out. -/
structure Workable (n : Node) : Prop where
  /-- The indices that a new line would cite lead to the lines with these
  numbers. -/
  lookups : ∀ d ∈ drafts n.lines (Line.vocabulary n.lines n.goal), ∀ i ∈ d.cites,
    ∃ l ∈ n.lines, l.number = i ∧ Line.get n.lines i = .ok l
  /-- The lines of a branch are all that the nested search has proved from the
  hypothesis on: none of them is an assumption and left out. -/
  branches : ∀ child ∈ n.started Node.search, ∀ out, child.search.ending = .proved out →
    (Attempt.startNested n.assumptions child.goal child.lines child.settings).search.2.deductions
        n.lines.length
      = out.drop n.lines.length
  /-- A consequent that is not established under its hypothesis was established
  before. -/
  consequents : ∀ a b out, n.goal = .imp a b →
    (n.assuming (n.conditionalHypothesis a) b).search.ending = .proved out →
    Line.states (out.drop n.lines.length) b = false →
    ∃ l, n.lines.reverse.find? (fun l => l.formula = b) = some l
  /-- So there are candidates, or it is known that there are none. -/
  candidates : ∃ found, n.candidates Node.search = .ok found

/-! ### Nodes with lines numbered by their places -/

theorem wellNumbered_of_mem_started {search : Node → Run} {child : Node}
    (hnum : Line.WellNumbered n.lines) (h : child ∈ n.started search) :
    Line.WellNumbered child.lines := by
  obtain ⟨hypothesis, goal, rfl, hnumber, -, -⟩ := exists_of_mem_started h
  exact assuming_wellNumbered hnum hnumber

/-- What an attempt hands over of the lines from `start` on, if none of them is an
assumption. -/
theorem deductions_of_proved {out : List Line} {start : Nat} (assumptions : List Formula)
    (hout : n.search.ending = .proved out) (hderived : Line.Derived (out.drop start)) :
    (Attempt.startNested assumptions n.goal n.lines n.settings).search.2.deductions start
      = out.drop start := by
  have hlines :
      (Attempt.startNested assumptions n.goal n.lines n.settings).search.2.lines = out := by
    show ((Attempt.startNested assumptions n.goal n.lines n.settings).update n.search).lines = out
    rw [Attempt.update, hout]
  have hfrom : Attempt.linesFrom out start = out.drop start := by
    rw [Attempt.linesFrom, if_pos (Int.natCast_nonneg start), Int.toNat_natCast]
  rw [Attempt.deductions, hlines, hfrom, List.filter_eq_self]
  intro l hl
  simpa using hderived l hl

/-- **At a node with lines numbered by their places nothing is missing.** -/
theorem workable_of_wellNumbered (hnum : Line.WellNumbered n.lines) : n.Workable where
  lookups := by
    intro d hd i hi
    obtain ⟨cited, hcited, hcites⟩ := (mem_drafts_iff.mp hd).cites_lines
    rw [hcites] at hi
    obtain ⟨l, hl, rfl⟩ := List.mem_map.mp hi
    exact ⟨l, hcited l hl, rfl, hnum.get_number (hcited l hl)⟩
  branches := by
    intro child hchild out hout
    have hnum' := wellNumbered_of_mem_started hnum hchild
    obtain ⟨hypothesis, goal, rfl, -, hopens, -⟩ := exists_of_mem_started hchild
    apply deductions_of_proved n.assumptions hout
    exact derived_branch (answers_search _ hnum') (search_derived _ hnum') hopens hout
  consequents := by
    intro a b out _ hout hstates
    have hanswer := (nestedAnswer_search hnum).conditional a b
    exact exists_earlier (hanswer.goal_mem hout) (states_eq_false_iff.mp hstates)
  candidates := exists_candidates hnum (nestedAnswer_search hnum)

/-- At every depth of nesting the searches start from such nodes. -/
theorem NestedAt.wellNumbered {d : Nat} (hnum : Line.WellNumbered head.lines)
    (h : NestedAt head d n) : Line.WellNumbered n.lines := by
  induction h with
  | outermost => exact hnum
  | @nested d outer inner _ hnests ih =>
    obtain ⟨lines, -, hlines, hinner⟩ := hnests.exists_started outer.keeps_wellNumbered ih
    exact wellNumbered_of_mem_started hlines hinner

end Node

/-- **No fault escapes the search.**  From a head whose lines are numbered by
their places, the search finds a proof, whose lines are numbered by their places,
begin with the lines of the head and state the goal, or it halts.  And in the
search itself, as in any search nested in it however deep, nothing is missing at
any node that is examined. -/
theorem search_safe (head : Node) (hnum : Line.WellNumbered head.lines) :
    ((∃ out, head.search.ending = .proved out ∧ Line.WellNumbered out ∧ head.lines <+: out ∧
        Line.states out head.goal = true) ∨
      ∃ why, head.search.ending = .halted why) ∧
    ∀ d n lines, head.NestedAt d n → n.Examines Node.search lines →
      Line.WellNumbered lines ∧ Node.Workable ⟨lines, n.goal, n.settings⟩ := by
  have hanswers := head.answers_search hnum
  constructor
  · rcases hend : head.search.ending with out | why | fault
    · obtain ⟨hext, hnum', hgoal⟩ := hanswers.continues out hend
      exact .inl ⟨out, rfl, hnum', hext, Node.states_eq_true_iff.mpr hgoal⟩
    · exact .inr ⟨why, rfl⟩
    · exact absurd hend (hanswers.unbroken fault)
  · intro d n lines hn hlines
    have hnum' := (hlines.keeps n.keeps_wellNumbered (hn.wellNumbered hnum)).2
    exact ⟨hnum', Node.workable_of_wellNumbered hnum'⟩

/-- A line that is in order only as to its number: no rule gives it, and it cites
and rests on lines that do not exist.  Under a condition it is to be proved
again. -/
def strayDisjunction : Node :=
  ⟨[⟨0, .disj (.var "P") (.var "Q"), .reductio, .ofList [-3, 7], [99, -1]⟩],
    .imp (.var "R") (.disj (.var "P") (.var "Q")), default⟩

/-- The search that is nested in it for the conditional proof. -/
def strayDisjunctionInside : Node :=
  strayDisjunction.assuming (strayDisjunction.conditionalHypothesis (.var "R"))
    (.disj (.var "P") (.var "Q"))

/-- The proof cites the stray line as the consequent that was established before. -/
theorem search_safe_strayDisjunction :
    Line.WellNumbered strayDisjunction.lines ∧
    (∃ out, strayDisjunction.search.ending = .proved out ∧ Line.WellNumbered out ∧
      strayDisjunction.lines <+: out ∧ Line.states out strayDisjunction.goal = true) ∧
    strayDisjunction.NestedAt 1 strayDisjunctionInside ∧
    strayDisjunctionInside.Workable := by
  have hnum : Line.WellNumbered strayDisjunction.lines := by
    show Line.WellNumbered ([] ++ [_])
    exact Line.wellNumbered_append_singleton.mpr ⟨by simp [Line.WellNumbered], rfl⟩
  obtain ⟨hends, hnested⟩ := search_safe strayDisjunction hnum
  have hfinished : strayDisjunction.search.status = .finished := by decide +kernel
  have hinside : strayDisjunction.NestedAt 1 strayDisjunctionInside := by
    apply Node.NestedAt.nested .outermost
    apply Node.nests_of_mem_started (by decide) (by decide)
    exact List.mem_append_right _ List.mem_cons_self
  refine ⟨hnum, ?_, hinside, (hnested 1 _ _ hinside ⟨_, _, [], .start, rfl⟩).2⟩
  rcases hends with hproved | ⟨why, hwhy⟩
  · exact hproved
  · simp [Run.status, hwhy] at hfinished

end NaturalDeduction
