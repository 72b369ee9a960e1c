/-
What the candidates of a node are.

`Node.Offers search n e` says in what ways an extension can come up: by a rule
that adds one line, by a disjunction elimination both of whose branches were
proved, or by a conditional proof whose consequent was proved.  The candidates
are the extensions that come up and say something new
(`mem_candidates_iff`).

A block always ends with the goal of its node (`Offers.goal_or_single`), so a
node at which no candidate states the goal has only candidates of one line.
-/
import NaturalDeduction.Search.Candidates
import NaturalDeduction.Proofs.Search.Steps

namespace NaturalDeduction

namespace Node

variable {search : Node → Run} {n : Node}

/-- The hypothesis of a conditional proof. -/
def conditionalHypothesis (n : Node) (side : Formula) : Line :=
  .ofHypothesis side .conditionalHypothesis n.lines.length []

/-- The extensions that come up at a node. -/
inductive Offers (search : Node → Run) (n : Node) : Extension → Prop
  | single {l : Line} (hl : IsStep n.lines n.goal l) : Offers search n (.single l)
  | disjElim {l : Line} {a b : Formula} {out₁ out₂ : List Line} (hl : l ∈ n.lines)
      (hf : l.formula = .disj a b) (hincomplete : n.isComplete = false)
      (hclosed : Line.hasOpenBlock n.lines .disjHypothesis = false)
      (h₁ : (search (n.assuming (n.disjHypothesis l a) n.goal)).ending = .proved out₁)
      (h₂ : (search (n.assuming (n.disjHypothesis l b) n.goal)).ending = .proved out₂) :
      Offers search n
        (n.disjElimBlock l (out₁.drop n.lines.length) (out₂.drop n.lines.length))
  | conditional {a b : Formula} {out : List Line} {e : Extension} (hgoal : n.goal = .imp a b)
      (hincomplete : n.isComplete = false)
      (hclosed : Line.hasOpenBlock n.lines .conditionalHypothesis = false)
      (hout : (search (n.assuming (n.conditionalHypothesis a) b)).ending = .proved out)
      (he : n.conditionalBlock b (out.drop n.lines.length) = .ok e) : Offers search n e

/-! ### Nested searches -/

theorem branch_eq_ok_some_iff {hypothesis : Line} {goal : Formula} {lead : List Line}
    {trace : Array Event} :
    n.branch search hypothesis goal = .ok (some lead, trace) ↔
      ∃ out, (search (n.assuming hypothesis goal)).ending = .proved out ∧
        lead = out.drop n.lines.length ∧
        trace = (search (n.assuming hypothesis goal)).fullTrace true goal := by
  rw [branch]
  rcases h : (search (n.assuming hypothesis goal)).ending with out | why | fault
  · simp [eq_comm]
  · simp
  · simp

theorem branch_eq_ok_none {hypothesis : Line} {goal : Formula} {trace : Array Event}
    (h : n.branch search hypothesis goal = .ok (none, trace)) :
    ∃ why, (search (n.assuming hypothesis goal)).ending = .halted why := by
  rw [branch] at h
  rcases hend : (search (n.assuming hypothesis goal)).ending with out | why | fault
  · simp [hend] at h
  · exact ⟨why, rfl⟩
  · simp [hend] at h

/-! ### Disjunction elimination -/

theorem mem_disjElimOn_iff {l : Line} {found : Found} {e : Extension}
    (h : n.disjElimOn search l = .ok found) :
    e ∈ found.candidates ↔
      ∃ a b out₁ out₂, l.formula = .disj a b ∧
        (search (n.assuming (n.disjHypothesis l a) n.goal)).ending = .proved out₁ ∧
        (search (n.assuming (n.disjHypothesis l b) n.goal)).ending = .proved out₂ ∧
        e = n.disjElimBlock l (out₁.drop n.lines.length) (out₂.drop n.lines.length) := by
  rw [disjElimOn] at h
  split at h
  · next a b hf =>
    obtain ⟨⟨first?, trace₁⟩, hfirst, h⟩ := bind_eq_ok_iff.mp h
    rcases first? with - | first
    · obtain rfl := pure_eq_ok_iff.mp h
      obtain ⟨why, hwhy⟩ := branch_eq_ok_none hfirst
      simp [hf, hwhy]
    · obtain ⟨⟨second?, trace₂⟩, hsecond, h⟩ := bind_eq_ok_iff.mp h
      obtain ⟨out₁, h₁, rfl, -⟩ := branch_eq_ok_some_iff.mp hfirst
      rcases second? with - | second
      · obtain rfl := pure_eq_ok_iff.mp h
        obtain ⟨why, hwhy⟩ := branch_eq_ok_none hsecond
        simp [hf, hwhy]
      · obtain rfl := pure_eq_ok_iff.mp h
        obtain ⟨out₂, h₂, rfl, -⟩ := branch_eq_ok_some_iff.mp hsecond
        simp [hf, h₁, h₂]
  · next hf =>
    obtain rfl := pure_eq_ok_iff.mp h
    simp only [List.not_mem_nil, false_iff]
    rintro ⟨a, b, -, -, hf', -⟩
    exact hf a b hf'

theorem mem_disjElimsOn_iff {lines : List Line} {found : Found} {e : Extension}
    (h : n.disjElimsOn search lines = .ok found) :
    e ∈ found.candidates ↔
      ∃ l ∈ lines, ∃ a b out₁ out₂, l.formula = .disj a b ∧
        (search (n.assuming (n.disjHypothesis l a) n.goal)).ending = .proved out₁ ∧
        (search (n.assuming (n.disjHypothesis l b) n.goal)).ending = .proved out₂ ∧
        e = n.disjElimBlock l (out₁.drop n.lines.length) (out₂.drop n.lines.length) := by
  induction lines generalizing found with
  | nil =>
    obtain rfl := pure_eq_ok_iff.mp h
    simp
  | cons l rest ih =>
    rw [disjElimsOn] at h
    obtain ⟨found₁, h₁, h⟩ := bind_eq_ok_iff.mp h
    obtain ⟨found₂, h₂, h⟩ := bind_eq_ok_iff.mp h
    obtain rfl := pure_eq_ok_iff.mp h
    simp only [Found.append, List.mem_append, mem_disjElimOn_iff h₁, ih h₂, List.mem_cons,
      exists_eq_or_imp]

theorem mem_disjElims_iff {found : Found} {e : Extension}
    (h : n.disjElims search = .ok found) :
    e ∈ found.candidates ↔
      n.isComplete = false ∧ Line.hasOpenBlock n.lines .disjHypothesis = false ∧
      ∃ l ∈ n.lines, ∃ a b out₁ out₂, l.formula = .disj a b ∧
        (search (n.assuming (n.disjHypothesis l a) n.goal)).ending = .proved out₁ ∧
        (search (n.assuming (n.disjHypothesis l b) n.goal)).ending = .proved out₂ ∧
        e = n.disjElimBlock l (out₁.drop n.lines.length) (out₂.drop n.lines.length) := by
  rw [disjElims] at h
  by_cases hguard : n.isComplete || Line.hasOpenBlock n.lines .disjHypothesis
  · rw [if_pos hguard] at h
    obtain rfl := pure_eq_ok_iff.mp h
    simp only [List.not_mem_nil, false_iff]
    rintro ⟨hincomplete, hclosed, -⟩
    simp [hincomplete, hclosed] at hguard
  · rw [if_neg hguard] at h
    simp only [Bool.or_eq_true, not_or, Bool.not_eq_true] at hguard
    rw [mem_disjElimsOn_iff h]
    exact ⟨fun he => ⟨hguard.1, hguard.2, he⟩, fun he => he.2.2⟩

/-! ### Conditional proof -/

theorem mem_conditionalProofs_iff {found : Found} {e : Extension}
    (h : n.conditionalProofs search = .ok found) :
    e ∈ found.candidates ↔
      n.isComplete = false ∧ Line.hasOpenBlock n.lines .conditionalHypothesis = false ∧
      ∃ a b out, n.goal = .imp a b ∧
        (search (n.assuming (n.conditionalHypothesis a) b)).ending = .proved out ∧
        n.conditionalBlock b (out.drop n.lines.length) = .ok e := by
  rw [conditionalProofs] at h
  split at h
  · next a b hgoal =>
    by_cases hguard : n.isComplete || Line.hasOpenBlock n.lines .conditionalHypothesis
    · rw [if_pos hguard] at h
      obtain rfl := pure_eq_ok_iff.mp h
      simp only [List.not_mem_nil, false_iff]
      rintro ⟨hincomplete, hclosed, -⟩
      simp [hincomplete, hclosed] at hguard
    · rw [if_neg hguard] at h
      simp only [Bool.or_eq_true, not_or, Bool.not_eq_true] at hguard
      obtain ⟨⟨lead?, trace⟩, hlead, h⟩ := bind_eq_ok_iff.mp h
      rcases lead? with - | lead
      · obtain rfl := pure_eq_ok_iff.mp h
        obtain ⟨why, hwhy⟩ := branch_eq_ok_none hlead
        have hwhy' : (search (n.assuming (n.conditionalHypothesis a) b)).ending = .halted why :=
          hwhy
        simp [hgoal, hwhy']
      · obtain ⟨e', he', h⟩ := bind_eq_ok_iff.mp h
        obtain rfl := pure_eq_ok_iff.mp h
        obtain ⟨out, hout, rfl, -⟩ := branch_eq_ok_some_iff.mp hlead
        have hout' : (search (n.assuming (n.conditionalHypothesis a) b)).ending = .proved out :=
          hout
        simp [hgoal, hguard, hout', he', eq_comm]
  · next hgoal =>
    obtain rfl := pure_eq_ok_iff.mp h
    simp only [List.not_mem_nil, false_iff]
    rintro ⟨-, -, a, b, -, hgoal', -⟩
    exact hgoal a b hgoal'

/-! ### All candidates -/

/-- Whether an extension says something that is on no line yet. -/
def isNew (n : Node) (e : Extension) : Bool :=
  !Line.states n.lines e.last.formula

theorem isNew_iff {e : Extension} :
    n.isNew e = true ↔ e.last.formula ∉ formulas n.lines := by
  rw [isNew, Bool.not_eq_true', states_eq_false_iff]

/-- The new extensions by one line, in order and each once. -/
def newSteps (n : Node) : List Extension :=
  match n.singleSteps with
  | .ok es => (es.filter n.isNew).eraseDups
  | .error _ => []

theorem candidates_eq_ok_iff {found : Found} :
    n.candidates search = .ok found ↔
      ∃ singles elims proofs, n.singleSteps = .ok singles ∧ n.disjElims search = .ok elims ∧
        n.conditionalProofs search = .ok proofs ∧
        found =
          let blocks := elims.append proofs
          let kept := ((singles ++ blocks.candidates).filter n.isNew).eraseDups
          { candidates := kept
            subSearches := blocks.subSearches
            trace :=
              blocks.trace.push (.generated kept.length n.lines.length blocks.subSearches) } := by
  rw [candidates]
  simp only [bind_eq_ok_iff, pure_eq_ok_iff, distinctBy_eq_eraseDups]
  constructor
  · rintro ⟨singles, hsingles, elims, helims, proofs, hproofs, rfl⟩
    exact ⟨singles, elims, proofs, hsingles, helims, hproofs, rfl⟩
  · rintro ⟨singles, elims, proofs, hsingles, helims, hproofs, rfl⟩
    exact ⟨singles, hsingles, elims, helims, proofs, hproofs, rfl⟩

/-- **The candidates are the new extensions among those that come up.** -/
theorem mem_candidates_iff {found : Found} {e : Extension}
    (h : n.candidates search = .ok found) :
    e ∈ found.candidates ↔ n.Offers search e ∧ n.isNew e = true := by
  obtain ⟨singles, elims, proofs, hsingles, helims, hproofs, rfl⟩ := candidates_eq_ok_iff.mp h
  simp only [List.mem_eraseDups, List.mem_filter, List.mem_append, Found.append,
    mem_disjElims_iff helims, mem_conditionalProofs_iff hproofs]
  refine and_congr_left fun _ => ⟨?_, ?_⟩
  · rintro (he | ⟨hincomplete, hclosed, l, hl, a, b, out₁, out₂, hf, h₁, h₂, rfl⟩
      | ⟨hincomplete, hclosed, a, b, out, hgoal, hout, he⟩)
    · obtain ⟨l, hl, rfl⟩ := (mem_singleSteps_iff hsingles).mp he
      exact .single hl
    · exact .disjElim hl hf hincomplete hclosed h₁ h₂
    · exact .conditional hgoal hincomplete hclosed hout he
  · intro he
    cases he with
    | single hl => exact .inl ((mem_singleSteps_iff hsingles).mpr ⟨_, hl, rfl⟩)
    | disjElim hl hf hincomplete hclosed h₁ h₂ =>
      exact .inr (.inl ⟨hincomplete, hclosed, _, hl, _, _, _, _, hf, h₁, h₂, rfl⟩)
    | conditional hgoal hincomplete hclosed hout he =>
      exact .inr (.inr ⟨hincomplete, hclosed, _, _, _, hgoal, hout, he⟩)

/-- The candidate with which the search ends is offered and states the goal. -/
theorem offers_of_find?_eq_some {found : Found} {e : Extension}
    (hfound : n.candidates search = .ok found)
    (he : found.candidates.find? (fun e => decide (e.last.formula = n.goal)) = some e) :
    n.Offers search e ∧ e.last.formula = n.goal :=
  ⟨((mem_candidates_iff hfound).mp (List.mem_of_find?_eq_some he)).1,
    by simpa using List.find?_some he⟩

theorem mem_newSteps_iff {e : Extension} (hnum : Line.WellNumbered n.lines) :
    e ∈ n.newSteps ↔
      ∃ l, IsStep n.lines n.goal l ∧ l.formula ∉ formulas n.lines ∧ e = .single l := by
  obtain ⟨es, hes⟩ := exists_singleSteps hnum
  simp only [newSteps, hes, List.mem_eraseDups, List.mem_filter, mem_singleSteps_iff hes,
    isNew_iff]
  constructor
  · rintro ⟨⟨l, hl, rfl⟩, hnew⟩
    exact ⟨l, hl, hnew, rfl⟩
  · rintro ⟨l, hl, hnew, rfl⟩
    exact ⟨⟨l, hl, rfl⟩, hnew⟩

/-! ### Blocks end with the goal -/

theorem conditionalBlock_eq_ok_iff {consequent : Formula} {lead : List Line} {e : Extension} :
    n.conditionalBlock consequent lead = .ok e ↔
      ∃ earlier : List Line,
        (consequent ∈ formulas lead ∧ earlier = [] ∨
          consequent ∉ formulas lead ∧ ∃ l,
            n.lines.reverse.find? (fun l => decide (l.formula = consequent)) = some l ∧
            earlier = [l]) ∧
        e = ⟨lead,
          { number := n.lines.length + lead.length
            formula := n.goal
            rule := .conditionalProof
            rests := Line.restsOf (lead ++ earlier)
            cites := (earlier ++ lead).map (·.number) }⟩ := by
  rw [conditionalBlock]
  by_cases hlead : Line.states lead consequent
  · have hmem : consequent ∈ formulas lead := states_eq_true_iff.mp hlead
    simp only [hlead, hmem, if_true, pure_bind, pure_eq_ok_iff, true_and, not_true_eq_false,
      false_and, or_false, exists_eq_left, List.append_nil, List.nil_append]
  · have hmem : consequent ∉ formulas lead := by rwa [states_eq_true_iff] at hlead
    rcases hfind : n.lines.reverse.find? (fun l => decide (l.formula = consequent)) with - | l
    · simp [hlead, hmem, hfind, bind, Except.bind, throw, throwThe, MonadExceptOf.throw]
    · simp only [hlead, hmem, hfind, Bool.false_eq_true, if_false, pure_bind, pure_eq_ok_iff,
        false_and, not_false_eq_true, true_and, false_or, Option.some.injEq, exists_eq_left',
        exists_eq_left]

/-- A block states the goal at its end; any other extension is a single
line. -/
theorem Offers.goal_or_single {e : Extension} (h : n.Offers search e) :
    e.last.formula = n.goal ∨ ∃ l, IsStep n.lines n.goal l ∧ e = .single l := by
  cases h with
  | single hl => exact .inr ⟨_, hl, rfl⟩
  | disjElim => exact .inl rfl
  | conditional _ _ _ _ he =>
    obtain ⟨earlier, -, rfl⟩ := conditionalBlock_eq_ok_iff.mp he
    exact .inl rfl

/-- Where no candidate states the goal, the candidates are the new steps by
one line. -/
theorem candidates_eq_newSteps {found : Found} (h : n.candidates search = .ok found)
    (hincomplete : n.isComplete = false)
    (hnone : ∀ e ∈ found.candidates, e.last.formula ≠ n.goal) :
    found.candidates = n.newSteps := by
  obtain ⟨singles, elims, proofs, hsingles, helims, hproofs, hfound⟩ := candidates_eq_ok_iff.mp h
  have hnew : n.goal ∉ formulas n.lines := states_eq_false_iff.mp hincomplete
  -- a block would state the goal, and that would be new
  have hblock : ∀ e ∈ (elims.append proofs).candidates, False := by
    intro e he
    have hgoal : e.last.formula = n.goal := by
      rcases List.mem_append.mp he with he | he
      · obtain ⟨-, -, l, -, a, b, out₁, out₂, -, -, -, rfl⟩ := (mem_disjElims_iff helims).mp he
        rfl
      · obtain ⟨-, -, a, b, out, -, -, he⟩ := (mem_conditionalProofs_iff hproofs).mp he
        obtain ⟨earlier, -, rfl⟩ := conditionalBlock_eq_ok_iff.mp he
        rfl
    refine hnone e ?_ hgoal
    rw [hfound]
    simp only [List.mem_eraseDups, List.mem_filter, List.mem_append]
    exact ⟨.inr he, isNew_iff.mpr (hgoal ▸ hnew)⟩
  have hnil : (elims.append proofs).candidates = [] :=
    List.eq_nil_iff_forall_not_mem.mpr hblock
  rw [hfound, newSteps, hsingles]
  simp only [hnil, List.append_nil]

end Node

end NaturalDeduction
