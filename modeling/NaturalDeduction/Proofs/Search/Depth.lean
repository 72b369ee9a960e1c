/-
How deep searches nest.

There are two kinds of block.  Inside an open block of one kind no other block
of that kind is tried, and the hypothesis under which a nested search runs opens
a block.  So a nested search has one more kind of open block than the search
around it, and searches nest at most two deep.

It is the first line of a nested search that counts here: later lines neither
open nor close a block, so all nodes of one search agree on the kinds of block
that are open (`keeps_openKinds`).  The hypothesis only counts as open because
no line before it cites it.  Lines that a search has added never do this; for
the lines of the head it has to be assumed (`Line.Settled`).

`Node.searchCutAt instead d` is the search in which all searches that would be
nested `d` deep are replaced by `instead`.  Cut three deep, it is the search.

Main result: `nesting_bounded`.
-/
import NaturalDeduction.Proofs.Search.Blocks
import NaturalDeduction.Proofs.Search.Nested

namespace NaturalDeduction

/-! ### Kinds of open block -/

theorem Rule.eq_of_opensBlock (r : Rule) (h : r.opensBlock = true) :
    r = .disjHypothesis ∨ r = .conditionalHypothesis := by
  cases r <;> first | exact .inl rfl | exact .inr rfl | cases h

namespace Line

variable {lines : List Line} {h l : Line}

/-- The number of kinds of block that are open. -/
def openKinds (lines : List Line) : Nat :=
  [Rule.disjHypothesis, Rule.conditionalHypothesis].countP (hasOpenBlock lines)

theorem openKinds_le (lines : List Line) : openKinds lines ≤ 2 :=
  List.countP_le_length

/-- A step that adds one line leaves the open blocks as they are. -/
theorem openKinds_append_step {goal : Formula} (hl : IsStep lines goal l) :
    openKinds (lines ++ [l]) = openKinds lines := by
  apply List.countP_congr
  intro opener hopener
  have hopens : opener.opensBlock = true := by
    rcases List.mem_pair.mp hopener with rfl | rfl
    · rfl
    · rfl
  rw [hasOpenBlock_append (hl.quiet hopens)]

/-- A hypothesis of a kind that is not open yet opens one kind more. -/
theorem openKinds_append_hypothesis (hsettled : Settled lines) (hopens : h.rule.opensBlock = true)
    (hclosed : hasOpenBlock lines h.rule = false) :
    openKinds (lines ++ [h]) = openKinds lines + 1 := by
  have hopen := hasOpenBlock_append_hypothesis hsettled hopens
  have hother : ∀ opener, h.rule ≠ opener →
      hasOpenBlock (lines ++ [h]) opener = hasOpenBlock lines opener :=
    fun opener hne => hasOpenBlock_append (Node.quiet_hypothesis hopens hne)
  -- its own kind was closed and is open now; the other kind is as before
  rcases h.rule.eq_of_opensBlock hopens with hrule | hrule
  · rw [hrule] at hopen hclosed hother
    simp [openKinds, List.countP_cons, hopen, hclosed, hother]
  · rw [hrule] at hopen hclosed hother
    simp [openKinds, List.countP_cons, hopen, hclosed, hother, Nat.add_comm]

end Line

namespace Node

variable {search : Node → Run} {n head child : Node}

/-! ### Nested searches open one kind more -/

theorem openKinds_of_mem_started (hsettled : Line.Settled n.lines) (h : child ∈ n.started search) :
    Line.Settled child.lines ∧ Line.openKinds child.lines = Line.openKinds n.lines + 1 := by
  obtain ⟨hypothesis, goal, rfl, -, hopens, hclosed⟩ := exists_of_mem_started h
  constructor
  · apply hsettled.append_singleton
    rw [Rule.closesBlock, Rule.opener_eq_none_of_opensBlock hopens]
    rfl
  · exact Line.openKinds_append_hypothesis hsettled hopens hclosed

/-- All nodes of a search have the same kinds of block open. -/
theorem keeps_openKinds (head : Node) :
    head.Keeps fun lines =>
      Line.Settled lines ∧ Line.openKinds lines = Line.openKinds head.lines := by
  rintro lines l - ⟨hsettled, hkinds⟩ hl - -
  refine ⟨hsettled.append_singleton hl.opensBlock_closesBlock.2, ?_⟩
  rw [Line.openKinds_append_step hl]
  exact hkinds

theorem Examines.openKinds {lines : List Line} (hsettled : Line.Settled head.lines)
    (h : Examines search head lines) : Line.openKinds lines = Line.openKinds head.lines :=
  (h.keeps head.keeps_openKinds ⟨hsettled, rfl⟩).2.2

theorem Nests.openKinds (hsettled : Line.Settled head.lines) (h : Nests search head child) :
    Line.Settled child.lines ∧ Line.openKinds child.lines = Line.openKinds head.lines + 1 := by
  obtain ⟨lines, -, ⟨hsettled', hkinds⟩, hchild⟩ :=
    h.exists_started head.keeps_openKinds ⟨hsettled, rfl⟩
  rw [← hkinds]
  exact openKinds_of_mem_started hsettled' hchild

/-! ### Searches nested in searches -/

/-- The search from `head` leads to a search from a node that is nested in it so
many times over. -/
inductive NestedAt (head : Node) : Nat → Node → Prop
  | outermost : NestedAt head 0 head
  | nested {d : Nat} {outer inner : Node} (h : NestedAt head d outer)
      (hnests : Nests Node.search outer inner) : NestedAt head (d + 1) inner

theorem NestedAt.openKinds {d : Nat} (hsettled : Line.Settled head.lines)
    (h : NestedAt head d n) :
    Line.Settled n.lines ∧ Line.openKinds n.lines = Line.openKinds head.lines + d := by
  induction h with
  | outermost => exact ⟨hsettled, rfl⟩
  | nested _ hnests ih =>
    obtain ⟨hsettled', hkinds⟩ := hnests.openKinds ih.1
    refine ⟨hsettled', ?_⟩
    rw [hkinds, ih.2, Nat.add_assoc]

/-- The search in which the searches that would be nested `d` deep are replaced. -/
def searchCutAt (instead : Node → Run) : Nat → Node → Run
  | 0, head => instead head
  | d + 1, head => head.searchWith (searchCutAt instead d)

/-- A search that is cut deeper than there are kinds of block left to open is the
search. -/
theorem searchCutAt_eq_search (instead : Node → Run) (d : Nat) (head : Node)
    (hsettled : Line.Settled head.lines) (hdeep : 2 < Line.openKinds head.lines + d) :
    searchCutAt instead d head = head.search := by
  induction d generalizing head with
  | zero => exact absurd hdeep (Nat.not_lt.mpr (Line.openKinds_le head.lines))
  | succ d ih =>
    rw [searchCutAt, search_eq]
    apply searchWith_congr_started head.keeps_openKinds ⟨hsettled, rfl⟩
    rintro lines - ⟨hsettled', hkinds⟩ child hchild
    obtain ⟨hchildSettled, hchildKinds⟩ := openKinds_of_mem_started hsettled' hchild
    apply ih child hchildSettled
    -- a kind more is open, and a level less is left
    have : Line.openKinds child.lines = Line.openKinds head.lines + 1 := by
      rw [hchildKinds]
      exact congrArg (· + 1) hkinds
    omega

end Node

/-- **Searches nest at most two deep.**  If the discharges in the head cite only
lines of the head, then whatever a nested search examines has more kinds of block
open than whatever the search around it examines.  So no search is nested more
than two deep, and it makes no difference what would be done at a depth of three:
the result is the same, with its counters and its trace. -/
theorem nesting_bounded (head : Node) (hsettled : Line.Settled head.lines) :
    (∀ d outer inner lines lines', head.NestedAt d outer → outer.Nests Node.search inner →
      outer.Examines Node.search lines → inner.Examines Node.search lines' →
      Line.openKinds lines < Line.openKinds lines') ∧
    (∀ d n, head.NestedAt d n → d ≤ 2) ∧
    ∀ instead, Node.searchCutAt instead 3 head = head.search := by
  refine ⟨?_, ?_, ?_⟩
  · intro d outer inner lines lines' hnested hnests hlines hlines'
    obtain ⟨houter, -⟩ := hnested.openKinds hsettled
    obtain ⟨hinner, hkinds⟩ := hnests.openKinds houter
    rw [hlines.openKinds houter, hlines'.openKinds hinner, hkinds]
    exact Nat.lt_succ_self _
  · intro d n hnested
    obtain ⟨-, hkinds⟩ := hnested.openKinds hsettled
    have := Line.openKinds_le n.lines
    omega
  · intro instead
    exact Node.searchCutAt_eq_search instead 3 head hsettled (by omega)

/-- A disjunction to be turned round under a condition. -/
def guardedTurn : Node :=
  ⟨Line.ofAssumptions [.disj (.var "P") (.var "Q")],
    .imp (.var "R") (.disj (.var "Q") (.var "P")), default⟩

/-- The search that is nested in it for the conditional proof. -/
def guardedTurnInside : Node :=
  guardedTurn.assuming (guardedTurn.conditionalHypothesis (.var "R"))
    (.disj (.var "Q") (.var "P"))

/-- The bound is reached: the conditional proof asks for a disjunction elimination. -/
theorem nesting_bounded_guardedTurn :
    (∃ n, guardedTurn.NestedAt 2 n) ∧ (∀ d n, guardedTurn.NestedAt d n → d ≤ 2) ∧
    Node.searchCutAt (fun _ => ⟨.halted .deadEnd, {}, #[]⟩) 3 guardedTurn = guardedTurn.search := by
  have hsettled : Line.Settled guardedTurn.lines := by
    intro l hl hcloses
    obtain rfl := List.mem_singleton.mp hl
    cases hcloses
  obtain ⟨-, hdepth, hcut⟩ := nesting_bounded guardedTurn hsettled
  refine ⟨?_, hdepth, hcut _⟩
  have hinside : guardedTurn.Nests Node.search guardedTurnInside := by
    apply Node.nests_of_mem_started (by decide) (by decide)
    exact List.mem_append_right _ List.mem_cons_self
  have helim := Node.mem_started_of_disj Node.search (n := guardedTurnInside) (by decide)
    (by decide) List.mem_cons_self rfl
  exact ⟨_, .nested (.nested .outermost hinside)
    (Node.nests_of_mem_started (by decide) (by decide) helim)⟩

end NaturalDeduction
