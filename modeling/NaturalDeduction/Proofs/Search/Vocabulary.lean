/-
The names that a search knows of.

A disjunction may be introduced with any name of the lines or of the goal, so
names get from the goal into lines that have nothing else to do with it.  A
nested search has another goal and one line more.  Still the names that occur in
the lines or in the goal are the same ones at every node (`Node.SameNames`), in
the search and in all searches nested in it:

* a rule that adds one line states a formula over names that occur already
  (`OneStep.occurs`), and no line is ever lost;
* the hypothesis of a disjunction elimination is a part of a line;
* a conditional proof takes the goal apart and keeps both sides, the one as a
  line and the other as the goal.

What a search proves contains lines of blocks, which were never in a node.  They
come from nested searches, so for them there is an induction on the room
(`speaksOf_search`).

Main result: `search_vocabulary`, for any lines, any goal and any settings.
-/
import NaturalDeduction.Proofs.Search.Depth

namespace NaturalDeduction

variable {fs more : List Formula} {goal f : Formula} {name : String}

/-! ### Names that occur -/

theorem Occurs.of_mem (hf : f ∈ fs) (hname : name ∈ f.names) : Occurs fs goal name :=
  .inl ⟨f, hf, hname⟩

/-- Formulas over names that occur already add no name. -/
theorem occurs_append_iff (h : ∀ f ∈ more, ∀ name ∈ f.names, Occurs fs goal name) :
    Occurs (fs ++ more) goal name ↔ Occurs fs goal name := by
  constructor
  · rintro (⟨f, hf, hname⟩ | hname)
    · rcases List.mem_append.mp hf with hf | hf
      · exact .of_mem hf hname
      · exact h f hf name hname
    · exact .inr hname
  · exact Occurs.mono fun f hf => List.mem_append_left more hf

/-- The sides of an implication that is the goal may be a formula and the goal. -/
theorem occurs_append_left_iff {a b : Formula} :
    Occurs (fs ++ [a]) b name ↔ Occurs fs (.imp a b) name := by
  simp only [Occurs, List.mem_append, List.mem_singleton, Formula.names, or_and_right, exists_or,
    exists_eq_left, or_assoc]

/-- A rule that adds one line states a formula over names that occur. -/
theorem OneStep.occurs (h : OneStep fs goal f) (hname : name ∈ f.names) :
    Occurs fs goal name := by
  cases h with
  | modusPonens hab _ | conjRight hab => exact .of_mem hab (List.mem_append_right _ hname)
  | modusTollens hab _ | conjLeft hab => exact .of_mem hab (List.mem_append_left _ hname)
  | conjIntro ha hb | disjIntro ha hb =>
    rcases List.mem_append.mp hname with hname | hname
    · exact .of_mem ha hname
    · exact .of_mem hb hname
  | disjLeft ha hvar =>
    rcases List.mem_append.mp hname with hname | hname
    · exact .of_mem ha hname
    · obtain rfl := List.mem_singleton.mp hname
      exact hvar
  | disjRight ha hvar =>
    rcases List.mem_append.mp hname with hname | hname
    · obtain rfl := List.mem_singleton.mp hname
      exact hvar
    · exact .of_mem ha hname
  | negElim ha | negIntro ha => exact .of_mem ha hname

namespace Node

variable {search : Node → Run} {n head child : Node}

/-! ### Nodes -/

/-- The same names occur in two nodes. -/
def SameNames (m n : Node) : Prop :=
  ∀ name, Occurs (formulas m.lines) m.goal name ↔ Occurs (formulas n.lines) n.goal name

theorem SameNames.trans {m : Node} (h : SameNames child m) (hm : SameNames m n) :
    SameNames child n :=
  fun name => (h name).trans (hm name)

/-- The nodes of a search agree on the names that occur. -/
theorem keeps_sameNames (head : Node) :
    head.Keeps fun lines => SameNames ⟨lines, head.goal, head.settings⟩ head := by
  intro lines l _ hlines hl _ _ name
  rw [formulas_append, ← hlines name]
  apply occurs_append_iff
  intro f hf name' hname'
  obtain rfl : f = l.formula := by simpa [formulas] using hf
  exact hl.oneStep.occurs hname'

theorem sameNames_disjHypothesis {l : Line} {a b side : Formula} (hl : l ∈ n.lines)
    (hf : l.formula = .disj a b) (hside : side = a ∨ side = b) :
    SameNames (n.assuming (n.disjHypothesis l side) n.goal) n := by
  intro name
  rw [assuming, formulas_append]
  apply occurs_append_iff
  intro f hf' name' hname'
  obtain rfl : f = side := by simpa [formulas, disjHypothesis, Line.ofHypothesis] using hf'
  refine .of_mem (formula_mem_formulas hl) ?_
  rw [hf, Formula.names]
  rcases hside with rfl | rfl
  · exact List.mem_append_left _ hname'
  · exact List.mem_append_right _ hname'

theorem sameNames_conditionalHypothesis {a b : Formula} (hgoal : n.goal = .imp a b) :
    SameNames (n.assuming (n.conditionalHypothesis a) b) n := by
  intro name
  rw [assuming, formulas_append, hgoal]
  exact occurs_append_left_iff

/-- A nested search starts with the names of the node that it is started for. -/
theorem sameNames_of_mem_started (h : child ∈ n.started search) : SameNames child n := by
  rcases mem_started_cases h with ⟨l, hl, a, b, side, hf, hside, -, rfl⟩ | ⟨a, b, hgoal, -, rfl⟩
  · exact sameNames_disjHypothesis hl hf hside
  · exact sameNames_conditionalHypothesis hgoal

theorem Examines.sameNames {lines : List Line} (h : Examines search head lines) :
    SameNames ⟨lines, head.goal, head.settings⟩ head :=
  (h.keeps head.keeps_sameNames fun _ => Iff.rfl).2

theorem NestedAt.sameNames {d : Nat} (h : NestedAt head d n) : SameNames n head := by
  induction h with
  | outermost => exact fun _ => Iff.rfl
  | @nested d outer inner _ hnests ih =>
    obtain ⟨lines, -, hlines, hinner⟩ :=
      hnests.exists_started outer.keeps_sameNames fun _ => Iff.rfl
    exact (sameNames_of_mem_started hinner).trans (hlines.trans ih)

/-! ### Proofs -/

/-- What the search proves from a node is over names that occur in the node. -/
def SpeaksOf (search : Node → Run) (n : Node) : Prop :=
  ∀ out, (search n).ending = .proved out → ∀ l ∈ out, ∀ name ∈ l.formula.names,
    Occurs (formulas n.lines) n.goal name

/-- So is every line of a branch. -/
theorem SpeaksOf.branch {out : List Line} (h : SpeaksOf search child) (hnames : SameNames child n)
    (hout : (search child).ending = .proved out) :
    ∀ l ∈ out.drop n.lines.length, ∀ name ∈ l.formula.names,
      Occurs (formulas n.lines) n.goal name :=
  fun l hl name hname => (hnames name).mp (h out hout l (List.mem_of_mem_drop hl) name hname)

theorem Offers.occurs {e : Extension}
    (hsearch : ∀ hypothesis goal, SpeaksOf search (n.assuming hypothesis goal))
    (he : n.Offers search e) :
    ∀ l ∈ e.lines, ∀ name ∈ l.formula.names, Occurs (formulas n.lines) n.goal name := by
  intro l hl name hname
  cases he with
  | single hstep =>
    obtain rfl := List.mem_singleton.mp hl
    exact hstep.oneStep.occurs hname
  | @disjElim k a b out₁ out₂ hk hf _ _ h₁ h₂ =>
    have hfirst := (hsearch _ _).branch (sameNames_disjHypothesis hk hf (.inl rfl)) h₁
    have hsecond := (hsearch _ _).branch (sameNames_disjHypothesis hk hf (.inr rfl)) h₂
    rcases List.mem_append.mp hl with hl | hl
    · rcases List.mem_append.mp hl with hl | hl
      · exact hfirst l hl name hname
      · -- renumbering leaves the formula alone
        obtain ⟨l', hl', rfl⟩ := List.mem_map.mp hl
        exact hsecond l' hl' name hname
    · obtain rfl := List.mem_singleton.mp hl
      exact .inr hname
  | @conditional a b out _ hgoal _ _ hout he =>
    have hlead := (hsearch _ _).branch (sameNames_conditionalHypothesis hgoal) hout
    obtain ⟨earlier, -, rfl⟩ := conditionalBlock_eq_ok_iff.mp he
    rcases List.mem_append.mp hl with hl | hl
    · exact hlead l hl name hname
    · obtain rfl := List.mem_singleton.mp hl
      exact .inr hname

/-- **A search invents no names.** -/
theorem speaksOf_search (head : Node) : SpeaksOf Node.search head := by
  induction head using search_induction with
  | step head ih =>
    intro out hout l hl name hname
    rcases search_proved head.keeps_sameNames (fun _ => Iff.rfl) hout with
      ⟨-, hnames, -⟩ | ⟨lines, found, e, hlines, hnames, hfound, he, rfl⟩
    · exact (hnames name).mp (.of_mem (formula_mem_formulas hl) hname)
    · apply (hnames name).mp
      rcases List.mem_append.mp hl with hl | hl
      · exact .of_mem (formula_mem_formulas hl) hname
      · have hoffers := (offers_of_find?_eq_some hfound he).1
        have hnested : ∀ hypothesis goal, SpeaksOf Node.search
            (assuming ⟨lines, head.goal, head.settings⟩ hypothesis goal) :=
          fun hypothesis goal => ih lines hypothesis goal hlines.length_le hlines.short
        exact hoffers.occurs hnested l hl name hname

end Node

/-- **The vocabulary never changes.**  Every node that is examined, in the search
or in a search nested in it at any depth, has the names of the head in its lines
and its goal, no more and no fewer.  So a proof is written with the names of the
head. -/
theorem search_vocabulary (head : Node) :
    (∀ d n lines, head.NestedAt d n → n.Examines Node.search lines → ∀ name,
      name ∈ Line.vocabulary lines n.goal ↔ name ∈ Line.vocabulary head.lines head.goal) ∧
    ∀ out, head.search.ending = .proved out → ∀ l ∈ out, ∀ name ∈ l.formula.names,
      name ∈ Line.vocabulary head.lines head.goal := by
  constructor
  · intro d n lines hn hlines name
    rw [mem_vocabulary, mem_vocabulary]
    exact (hlines.sameNames.trans hn.sameNames) name
  · intro out hout l hl name hname
    rw [mem_vocabulary]
    exact head.speaksOf_search out hout l hl name hname

/-- One name is in the goal only, and two searches deep it is in a line and in the
goal no more. -/
theorem search_vocabulary_guardedTurn :
    (∃ n, guardedTurn.NestedAt 2 n ∧ "R" ∉ n.goal.names ∧
      ∀ name, name ∈ Line.vocabulary n.lines n.goal ↔ name ∈ ["P", "Q", "R"]) ∧
    ∃ out, guardedTurn.search.ending = .proved out ∧
      ∀ l ∈ out, ∀ name ∈ l.formula.names, name ∈ ["P", "Q", "R"] := by
  have hnames : Line.vocabulary guardedTurn.lines guardedTurn.goal = ["P", "Q", "R"] := by
    decide +kernel
  obtain ⟨hnested, hproved⟩ := search_vocabulary guardedTurn
  rw [hnames] at hnested hproved
  constructor
  · have hinside : guardedTurn.Nests Node.search guardedTurnInside := by
      apply Node.nests_of_mem_started (by decide) (by decide)
      exact List.mem_append_right _ List.mem_cons_self
    have helim := Node.mem_started_of_disj Node.search (n := guardedTurnInside) (by decide)
      (by decide) List.mem_cons_self rfl
    have hdeep : guardedTurn.NestedAt 2 _ :=
      .nested (.nested .outermost hinside)
        (Node.nests_of_mem_started (by decide) (by decide) helim)
    refine ⟨_, hdeep, by decide, ?_⟩
    exact hnested 2 _ _ hdeep ⟨_, _, [], .start, rfl⟩
  · have hfinished : guardedTurn.search.status = .finished := by decide +kernel
    obtain ⟨out, hout⟩ := Run.exists_proved hfinished
    exact ⟨out, hout, hproved out hout⟩

end NaturalDeduction
