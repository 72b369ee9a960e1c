/-
The searches that are started for a node.

Disjunction elimination and conditional proof run nested searches.  Here they
are listed: `Node.started search n` are the nodes that nested searches start
from while the candidates of `n` are worked out, in their order, and
`Frontier.started` those that one pass starts.

There are as many as the candidates come with a count of
(`candidates_subSearches`).  Candidates and passes depend on `search` through
them alone (`candidates_congr_started`, `pass_congr_started`).
-/
import NaturalDeduction.Proofs.Search.Candidates
import NaturalDeduction.Proofs.Search.Pass

namespace NaturalDeduction

namespace Node

/-! ### Searches started for one node -/

/-- The nested searches for a disjunction elimination on one line.  The right
side is looked into only when the search under the left one finds a proof. -/
def startedOn (search : Node → Run) (n : Node) (l : Line) : List Node :=
  match l.formula with
  | .disj a b =>
    if (search (n.assuming (n.disjHypothesis l a) n.goal)).status = .finished then
      [n.assuming (n.disjHypothesis l a) n.goal, n.assuming (n.disjHypothesis l b) n.goal]
    else [n.assuming (n.disjHypothesis l a) n.goal]
  | _ => []

/-- The nested searches for the disjunction eliminations. -/
def startedDisjElims (search : Node → Run) (n : Node) : List Node :=
  if n.isComplete || Line.hasOpenBlock n.lines .disjHypothesis then []
  else n.lines.flatMap (n.startedOn search)

/-- The nested search for a conditional proof. -/
def startedConditional (n : Node) : List Node :=
  match n.goal with
  | .imp a b =>
    if n.isComplete || Line.hasOpenBlock n.lines .conditionalHypothesis then []
    else [n.assuming (n.conditionalHypothesis a) b]
  | _ => []

/-- The nodes that nested searches start from for the candidates of a node. -/
def started (search : Node → Run) (n : Node) : List Node :=
  n.startedDisjElims search ++ n.startedConditional

variable {search search' : Node → Run} {n child : Node}

/-- A search is started under one side of a disjunction among the lines, for the
goal of the node, or under the left side of the goal, for its right side.  No
block of that kind is open yet. -/
theorem mem_started_cases (h : child ∈ n.started search) :
    (∃ l ∈ n.lines, ∃ a b side, l.formula = .disj a b ∧ (side = a ∨ side = b) ∧
      Line.hasOpenBlock n.lines .disjHypothesis = false ∧
      child = n.assuming (n.disjHypothesis l side) n.goal) ∨
    ∃ a b, n.goal = .imp a b ∧ Line.hasOpenBlock n.lines .conditionalHypothesis = false ∧
      child = n.assuming (n.conditionalHypothesis a) b := by
  rcases List.mem_append.mp h with h | h
  · rw [startedDisjElims] at h
    split at h
    · cases h
    · next hguard =>
      have hclosed : Line.hasOpenBlock n.lines .disjHypothesis = false :=
        (Bool.or_eq_false_iff.mp (Bool.eq_false_iff.mpr hguard)).2
      obtain ⟨l, hl, h⟩ := List.mem_flatMap.mp h
      rw [startedOn] at h
      split at h
      · next a b hf =>
        -- whichever of the two sides it is
        have hside : child = n.assuming (n.disjHypothesis l a) n.goal ∨
            child = n.assuming (n.disjHypothesis l b) n.goal := by
          split at h
          · simpa using h
          · exact .inl (List.mem_singleton.mp h)
        rcases hside with hchild | hchild
        · exact .inl ⟨l, hl, a, b, a, hf, .inl rfl, hclosed, hchild⟩
        · exact .inl ⟨l, hl, a, b, b, hf, .inr rfl, hclosed, hchild⟩
      · cases h
  · rw [startedConditional] at h
    split at h
    · next a b hgoal =>
      split at h
      · cases h
      · next hguard =>
        have hclosed : Line.hasOpenBlock n.lines .conditionalHypothesis = false :=
          (Bool.or_eq_false_iff.mp (Bool.eq_false_iff.mpr hguard)).2
        exact .inr ⟨a, b, hgoal, hclosed, List.mem_singleton.mp h⟩
    · cases h

/-- A search that is started has one line more: a hypothesis with the next
number, of a kind that is not open yet. -/
theorem exists_of_mem_started (h : child ∈ n.started search) :
    ∃ hypothesis goal, child = n.assuming hypothesis goal ∧
      hypothesis.number = n.lines.length ∧ hypothesis.rule.opensBlock = true ∧
      Line.hasOpenBlock n.lines hypothesis.rule = false := by
  rcases mem_started_cases h with ⟨l, -, a, b, side, -, -, hclosed, rfl⟩ | ⟨a, b, -, hclosed, rfl⟩
  · exact ⟨_, _, rfl, rfl, rfl, hclosed⟩
  · exact ⟨_, _, rfl, rfl, rfl, hclosed⟩

/-- A disjunction elimination is tried under the left side first. -/
theorem mem_started_of_disj (search : Node → Run) {l : Line} {a b : Formula}
    (hincomplete : n.isComplete = false)
    (hclosed : Line.hasOpenBlock n.lines .disjHypothesis = false) (hl : l ∈ n.lines)
    (hf : l.formula = .disj a b) :
    n.assuming (n.disjHypothesis l a) n.goal ∈ n.started search := by
  apply List.mem_append_left
  rw [startedDisjElims, if_neg (by simp [hincomplete, hclosed]), List.mem_flatMap]
  refine ⟨l, hl, ?_⟩
  simp only [startedOn, hf]
  split
  · exact List.mem_cons_self
  · exact List.mem_cons_self

/-! ### The candidates depend on the searches started -/

theorem branch_congr {hypothesis : Line} {goal : Formula}
    (h : search (n.assuming hypothesis goal) = search' (n.assuming hypothesis goal)) :
    n.branch search hypothesis goal = n.branch search' hypothesis goal := by
  rw [branch, branch, h]

theorem disjElimOn_congr_started {l : Line}
    (h : ∀ child ∈ n.startedOn search l, search child = search' child) :
    n.disjElimOn search l = n.disjElimOn search' l := by
  rw [startedOn] at h
  rw [disjElimOn, disjElimOn]
  split
  · next a b hf =>
    simp only [hf] at h
    have hfirst : n.branch search (n.disjHypothesis l a) n.goal
        = n.branch search' (n.disjHypothesis l a) n.goal := by
      apply branch_congr
      apply h
      split
      · exact List.mem_cons_self
      · exact List.mem_cons_self
    rw [← hfirst]
    rcases hbranch : n.branch search (n.disjHypothesis l a) n.goal with fault | ⟨first?, trace⟩
    · rfl
    · rcases first? with - | first
      · rfl
      · -- the left side was proved, so the right one is looked into
        obtain ⟨out, hout, -, -⟩ := branch_eq_ok_some_iff.mp hbranch
        have hfinished : (search (n.assuming (n.disjHypothesis l a) n.goal)).status = .finished := by
          rw [Run.status, hout]
        rw [if_pos hfinished] at h
        have hsecond : n.branch search (n.disjHypothesis l b) n.goal
            = n.branch search' (n.disjHypothesis l b) n.goal :=
          branch_congr (h _ (by simp))
        simp only [bind, Except.bind, hsecond]
  · rfl

theorem disjElimsOn_congr_started {lines : List Line}
    (h : ∀ child ∈ lines.flatMap (n.startedOn search), search child = search' child) :
    n.disjElimsOn search lines = n.disjElimsOn search' lines := by
  induction lines with
  | nil => rfl
  | cons l rest ih =>
    rw [List.flatMap_cons] at h
    rw [disjElimsOn, disjElimsOn,
      disjElimOn_congr_started fun child hc => h child (List.mem_append_left _ hc),
      ih fun child hc => h child (List.mem_append_right _ hc)]

theorem disjElims_congr_started
    (h : ∀ child ∈ n.startedDisjElims search, search child = search' child) :
    n.disjElims search = n.disjElims search' := by
  rw [startedDisjElims] at h
  rw [disjElims, disjElims]
  split
  · rfl
  · next hguard =>
    rw [if_neg hguard] at h
    exact disjElimsOn_congr_started h

theorem conditionalProofs_congr_started
    (h : ∀ child ∈ n.startedConditional, search child = search' child) :
    n.conditionalProofs search = n.conditionalProofs search' := by
  rw [startedConditional] at h
  rw [conditionalProofs, conditionalProofs]
  split
  · next a b hgoal =>
    simp only [hgoal] at h
    split
    · rfl
    · next hguard =>
      rw [if_neg hguard] at h
      have hbranch : n.branch search (n.conditionalHypothesis a) b
          = n.branch search' (n.conditionalHypothesis a) b :=
        branch_congr (h _ (by simp))
      rw [conditionalHypothesis] at hbranch
      simp only [hbranch]
  · rfl

/-- The candidates of a node depend only on the nested searches that are
started for it. -/
theorem candidates_congr_started
    (h : ∀ child ∈ n.started search, search child = search' child) :
    n.candidates search = n.candidates search' := by
  have helims := disjElims_congr_started fun child hc => h child (List.mem_append_left _ hc)
  have hproofs := conditionalProofs_congr_started fun child hc =>
    h child (List.mem_append_right _ hc)
  rw [candidates, candidates, helims, hproofs]

/-! ### The count of nested searches -/

theorem disjElimOn_subSearches {l : Line} {found : Found} (h : n.disjElimOn search l = .ok found) :
    found.subSearches = (n.startedOn search l).length := by
  rw [disjElimOn] at h
  rw [startedOn]
  revert h
  cases l.formula with
  | disj a b =>
    intro h
    obtain ⟨⟨first?, trace₁⟩, hfirst, h⟩ := bind_eq_ok_iff.mp h
    rcases first? with - | first
    · obtain rfl := pure_eq_ok_iff.mp h
      obtain ⟨why, hwhy⟩ := branch_eq_ok_none hfirst
      simp [Run.status, hwhy]
    · obtain ⟨out, hout, -, -⟩ := branch_eq_ok_some_iff.mp hfirst
      obtain ⟨⟨second?, trace₂⟩, -, h⟩ := bind_eq_ok_iff.mp h
      rcases second? with - | second
      · obtain rfl := pure_eq_ok_iff.mp h
        simp [Run.status, hout]
      · obtain rfl := pure_eq_ok_iff.mp h
        simp [Run.status, hout]
  | _ =>
    intro h
    obtain rfl := pure_eq_ok_iff.mp h
    rfl

theorem disjElimsOn_subSearches {lines : List Line} {found : Found}
    (h : n.disjElimsOn search lines = .ok found) :
    found.subSearches = (lines.flatMap (n.startedOn search)).length := by
  induction lines generalizing found with
  | nil =>
    obtain rfl := pure_eq_ok_iff.mp h
    rfl
  | cons l rest ih =>
    rw [disjElimsOn] at h
    obtain ⟨found₁, h₁, h⟩ := bind_eq_ok_iff.mp h
    obtain ⟨found₂, h₂, h⟩ := bind_eq_ok_iff.mp h
    obtain rfl := pure_eq_ok_iff.mp h
    rw [Found.append, List.flatMap_cons, List.length_append, disjElimOn_subSearches h₁, ih h₂]

/-- **The nested searches are counted.**  Candidates come with the number of
the searches that were started for them. -/
theorem candidates_subSearches {found : Found} (h : n.candidates search = .ok found) :
    found.subSearches = (n.started search).length := by
  obtain ⟨singles, elims, proofs, -, helims, hproofs, rfl⟩ := candidates_eq_ok_iff.mp h
  have hleft : elims.subSearches = (n.startedDisjElims search).length := by
    rw [disjElims] at helims
    rw [startedDisjElims]
    split at helims
    · next hguard =>
      obtain rfl := pure_eq_ok_iff.mp helims
      rw [if_pos hguard]
      rfl
    · next hguard =>
      rw [if_neg hguard]
      exact disjElimsOn_subSearches helims
  have hright : proofs.subSearches = n.startedConditional.length := by
    rw [conditionalProofs] at hproofs
    rw [startedConditional]
    revert hproofs
    cases n.goal with
    | imp a b =>
      intro hproofs
      by_cases hguard : n.isComplete || Line.hasOpenBlock n.lines .conditionalHypothesis
      · simp only [hguard, if_true] at hproofs ⊢
        obtain rfl := pure_eq_ok_iff.mp hproofs
        rfl
      · simp only [hguard, if_false, Bool.false_eq_true] at hproofs ⊢
        obtain ⟨⟨lead?, trace⟩, -, hproofs⟩ := bind_eq_ok_iff.mp hproofs
        rcases lead? with - | lead
        · obtain rfl := pure_eq_ok_iff.mp hproofs
          rfl
        · obtain ⟨e, -, hproofs⟩ := bind_eq_ok_iff.mp hproofs
          obtain rfl := pure_eq_ok_iff.mp hproofs
          rfl
    | _ =>
      intro hproofs
      obtain rfl := pure_eq_ok_iff.mp hproofs
      rfl
  show elims.subSearches + proofs.subSearches = _
  rw [started, List.length_append, hleft, hright]

end Node

/-! ### Searches started by a pass -/

namespace Frontier

open Node

/-- The nodes that nested searches start from in one pass: those for the node
at the front, if it is expanded. -/
def started (search : Node → Run) (goal : Formula) (settings : Settings) (left : Nat)
    (f : Frontier) : List Node :=
  match left, f.queue.toList with
  | 0, _ | _, [] => []
  | _ + 1, lines :: _ =>
    if Line.states lines goal || settings.maxLines < lines.length then []
    else Node.started search ⟨lines, goal, settings⟩

variable {search search' : Node → Run} {goal : Formula} {settings : Settings} {left : Nat}
  {f : Frontier} {child : Node}

theorem exists_of_mem_started (h : child ∈ f.started search goal settings left) :
    ∃ lines rest, Expands goal settings f lines rest ∧
      child ∈ Node.started search ⟨lines, goal, settings⟩ := by
  unfold started at h
  split at h
  · cases h
  · cases h
  · next lines rest hqueue =>
    split at h
    · cases h
    · next hguard =>
      simp only [Bool.or_eq_true, decide_eq_true_eq, not_or, Bool.not_eq_true, Nat.not_lt] at hguard
      exact ⟨lines, rest, ⟨hqueue, hguard.1, hguard.2⟩, h⟩

theorem started_of_expands {lines : List Line} {rest : List (List Line)}
    (hf : Expands goal settings f lines rest) (left : Nat) :
    f.started search goal settings (left + 1) = Node.started search ⟨lines, goal, settings⟩ := by
  have hguard : ¬ (Line.states lines goal || decide (settings.maxLines < lines.length)) = true := by
    simp [hf.incomplete, Nat.not_lt.mpr hf.short]
  unfold started
  rw [hf.queue]
  exact if_neg hguard

/-- A pass depends only on the nested searches that it starts. -/
theorem pass_congr_started
    (h : ∀ child ∈ f.started search goal settings left, search child = search' child) :
    f.pass search goal settings left = f.pass search' goal settings left := by
  rw [pass, pass]
  rcases hpop : f.queue.pop? with - | ⟨lines, queue⟩
  · rfl
  · by_cases hstates : Line.states lines goal
    · simp only [hstates, if_true]
    · by_cases hlong : settings.maxLines < lines.length
      · simp only [hlong, if_true]
      · rcases left with - | left
        · rfl
        · -- only here are candidates worked out
          have hexp : Expands goal settings f lines queue.toList :=
            ⟨Queue.toList_eq_of_pop? hpop, by simpa using hstates, Nat.le_of_not_lt hlong⟩
          rw [started_of_expands hexp] at h
          simp only [candidates_congr_started h]

end Frontier

end NaturalDeduction
