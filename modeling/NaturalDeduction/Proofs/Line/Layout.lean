/-
The layout of blocks in a sequence of lines.

A line that closes a block cites the hypotheses of the block.  The first of
them is where the block begins, and the block reaches up to the closing line
(`IsBlock`).  Nothing in the definition keeps blocks from overlapping, or lines
from citing what stands in a block that is closed already.  That they do
neither is what `WellScoped` says.

It follows from how blocks are laid out.  `Layout lines V s t` describes the
lines from `s` to before `t` when the places in `V` are visible to them: single
steps, and then perhaps one block, which takes the lines up to the end.  A
block consists of one or two branches, each of them a hypothesis and a layout
that sees what the block sees and its own hypothesis, so a branch never sees
another one.

* Every line of a layout cites what it sees (`Layout.reads`).
* A line that closes a block or opens one belongs to a block of the layout
  (`Layout.exists_blockAt`, `Layout.exists_blockAt_of_opens`).
* Blocks of a layout are nested or disjoint (`Layout.nested`), and a citation
  never leads into a block that the citing line is not in (`Layout.inScope`).

So a sequence that is laid out in this way is well scoped
(`Layout.wellScoped`).
-/
import Mathlib.Order.Interval.Set.LinearOrder
import NaturalDeduction.Line.Blocks

namespace NaturalDeduction

namespace Line

variable {lines : List Line} {l : Line} {V : Set Nat} {b b' c c' s t : Nat}

/-! ### Blocks -/

/-- The place where the block begins that a line closes: the first hypothesis
of the matching rule that it cites. -/
def blockStart? (lines : List Line) (l : Line) : Option Nat :=
  (List.range lines.length).find? fun i => lines[i]?.any fun h => l.discharges h.rule i

theorem blockStart?_eq_some_iff :
    blockStart? lines l = some b ↔
      (∃ h, lines[b]? = some h ∧ l.discharges h.rule b = true) ∧
        ∀ i < b, ∀ h, lines[i]? = some h → l.discharges h.rule i = false := by
  rw [blockStart?, List.find?_range_eq_some]
  simp only [Option.any_eq_true, List.mem_range, Bool.not_eq_eq_eq_not, Bool.not_true,
    Option.any_eq_false]
  constructor
  · rintro ⟨⟨h, hb, hdischarges⟩, -, hfirst⟩
    exact ⟨⟨h, hb, hdischarges⟩, fun i hi k hk => by simpa using hfirst i hi k hk⟩
  · rintro ⟨⟨h, hb, hdischarges⟩, hfirst⟩
    exact ⟨⟨h, hb, hdischarges⟩, (List.getElem?_eq_some_iff.mp hb).1,
      fun i hi k hk => by simpa using hfirst i hi k hk⟩

/-- The lines from `b` to before `c` are the block that the line at `c`
closes. -/
def IsBlock (lines : List Line) (b c : Nat) : Prop :=
  ∃ l, lines[c]? = some l ∧ blockStart? lines l = some b

theorem IsBlock.unique (h : IsBlock lines b c) (h' : IsBlock lines b' c) : b = b' := by
  obtain ⟨l, hl, hb⟩ := h
  obtain ⟨l', hl', hb'⟩ := h'
  obtain rfl := Option.some.inj (hl.symm.trans hl')
  exact Option.some.inj (hb.symm.trans hb')

theorem IsBlock.exists_closes (h : IsBlock lines b c) :
    ∃ l, lines[c]? = some l ∧ l.rule.closesBlock = true := by
  obtain ⟨l, hl, hb⟩ := h
  obtain ⟨⟨k, -, hdischarges⟩, -⟩ := blockStart?_eq_some_iff.mp hb
  rw [discharges, Bool.and_eq_true, decide_eq_true_eq] at hdischarges
  refine ⟨l, hl, ?_⟩
  rw [Rule.closesBlock, hdischarges.1]
  rfl

/-- The block of a disjunction elimination on line `i` has two branches, and
the second begins at `m`.  Each begins with the hypothesis of one side, and no
line of the second cites a line of the first. -/
structure Branched (lines : List Line) (i b m c : Nat) : Prop where
  before : i < b
  first : b < m
  second : m < c
  sides : ∃ d h₁ h₂, lines[i]? = some d ∧ lines[b]? = some h₁ ∧ lines[m]? = some h₂ ∧
    d.formula = .disj h₁.formula h₂.formula
  hypotheses : ∀ j k, b ≤ j → j < c → lines[j]? = some k →
    (k.rule = .disjHypothesis ↔ j = b ∨ j = m)
  apart : ∀ j k, m ≤ j → j < c → lines[j]? = some k → ∀ n ∈ k.cites, n < b ∨ (m : Int) ≤ n

/-- The blocks of a sequence are closed, nested and entered only from
inside. -/
structure WellScoped (lines : List Line) : Prop where
  /-- Every hypothesis is discharged. -/
  closed : openBlocks lines = []
  /-- A line that closes a block closes one before it. -/
  block : ∀ c l, lines[c]? = some l → l.rule.closesBlock = true →
    ∃ b, b < c ∧ IsBlock lines b c
  /-- Two blocks are disjoint, or one is inside the other. -/
  nested : ∀ b c b' c', IsBlock lines b c → IsBlock lines b' c' →
    c ≤ b' ∨ c' ≤ b ∨ (b ≤ b' ∧ c' ≤ c) ∨ (b' ≤ b ∧ c ≤ c')
  /-- A closing line cites its block and besides at most one line before it. -/
  cites : ∀ b c l, IsBlock lines b c → lines[c]? = some l →
    ∃ earlier : List Nat, l.cites = (earlier ++ List.range' b (c - b)).map Nat.cast ∧
      earlier.length ≤ 1 ∧ ∀ i ∈ earlier, i < b
  /-- In a disjunction elimination that is the disjunction. -/
  branched : ∀ b c l, IsBlock lines b c → lines[c]? = some l → l.rule = .disjElim →
    ∃ i m, l.cites = (i :: List.range' b (c - b)).map Nat.cast ∧ Branched lines i b m c
  /-- What a line cites, apart from the block that it closes, stands only in
  blocks that the line itself stands in. -/
  inScope : ∀ (j : Nat) (l : Line), lines[j]? = some l → ∀ n ∈ l.cites,
    (l.rule.closesBlock = false ∨ ∃ b, IsBlock lines b j ∧ n < b) →
    ∀ b c, IsBlock lines b c → b ≤ n → n < c → b ≤ j ∧ j < c

/-! ### Layouts -/

/-- The line cites places of a set only. -/
def CitesIn (l : Line) (S : Set Nat) : Prop :=
  ∀ n ∈ l.cites, ∃ i ∈ S, n = (i : Int)

/-- The lines from `s` to before `t` neither open nor close a block, and cite
what is visible and each other. -/
structure Steps (lines : List Line) (V : Set Nat) (s t : Nat) : Prop where
  le : s ≤ t
  line : ∀ j, s ≤ j → j < t → ∃ l, lines[j]? = some l ∧ l.rule.opensBlock = false ∧
    l.rule.closesBlock = false ∧ l.CitesIn (V ∪ Set.Ico s j)

/-- The line at `c` closes a block of the kind that begins at `b`.  It cites
the block and besides at most one line, which is visible to the block and no
hypothesis of the kind. -/
structure Ends (lines : List Line) (V : Set Nat) (b c : Nat) (opener : Rule)
    (earlier : List Nat) : Prop where
  line : ∃ l, lines[c]? = some l ∧ l.rule.opener = some opener ∧
    l.cites = (earlier ++ List.range' b (c - b)).map Nat.cast
  few : earlier.length ≤ 1
  visible : ∀ i ∈ earlier, i ∈ V ∧ ∃ k, lines[i]? = some k ∧ k.rule ≠ opener

/-- A block from `b` to before `c` that the line at `c` closes, when the places
in `V` are visible to it, and the branches that it consists of.  It has no
hypothesis of its kind but those that the branches begin with. -/
inductive BlockAt (lines : List Line) (V : Set Nat) (b c : Nat) : List (Nat × Nat) → Prop
  | conditional {h : Line} {earlier : List Nat} (hlt : b < c) (hh : lines[b]? = some h)
      (hrule : h.rule = .conditionalHypothesis) (hcites : h.cites = [])
      (hends : Ends lines V b c .conditionalHypothesis earlier)
      (hquiet : ∀ j, b < j → j < c → ∃ k, lines[j]? = some k ∧ k.rule ≠ .conditionalHypothesis) :
      BlockAt lines V b c [(b, c)]
  | disjElim {i m : Nat} {d h₁ h₂ : Line} (hbm : b < m) (hmc : m < c) (hd : lines[i]? = some d)
      (hf : d.formula = .disj h₁.formula h₂.formula)
      (hh₁ : lines[b]? = some h₁) (hrule₁ : h₁.rule = .disjHypothesis) (hcites₁ : h₁.cites = [↑i])
      (hh₂ : lines[m]? = some h₂) (hrule₂ : h₂.rule = .disjHypothesis) (hcites₂ : h₂.cites = [↑i])
      (hends : Ends lines V b c .disjHypothesis [i])
      (hquiet : ∀ j, b < j → j < c → j ≠ m → ∃ k, lines[j]? = some k ∧ k.rule ≠ .disjHypothesis) :
      BlockAt lines V b c [(b, m), (m, c)]

/-- The lines from `s` to before `t`, when the places in `V` are visible to
them: single steps, and then at most one block. -/
inductive Layout (lines : List Line) : Set Nat → Nat → Nat → Prop
  | steps {V : Set Nat} {s t : Nat} (h : Steps lines V s t) : Layout lines V s t
  | block {V : Set Nat} {s b c : Nat} {branches : List (Nat × Nat)}
      (hsteps : Steps lines V s b) (hblock : BlockAt lines (V ∪ Set.Ico s b) b c branches)
      (hinside : ∀ p q, (p, q) ∈ branches →
        Layout lines (V ∪ Set.Ico s b ∪ {p}) (p + 1) q) :
      Layout lines V s (c + 1)

/-! ### The parts of a block -/

theorem CitesIn.mono {S T : Set Nat} (h : l.CitesIn S) (hST : S ⊆ T) : l.CitesIn T := by
  intro n hn
  obtain ⟨i, hi, rfl⟩ := h n hn
  exact ⟨i, hST hi, rfl⟩

theorem Steps.get {j : Nat} (h : Steps lines V s t) (hs : s ≤ j) (ht : j < t)
    (hl : lines[j]? = some l) :
    l.rule.opensBlock = false ∧ l.rule.closesBlock = false ∧ l.CitesIn (V ∪ Set.Ico s j) := by
  obtain ⟨l', hl', hstep⟩ := h.line j hs ht
  obtain rfl := Option.some.inj (hl.symm.trans hl')
  exact hstep

theorem Steps.not_isBlock (h : Steps lines V s t) (hs : s ≤ c) (ht : c < t) :
    ¬ IsBlock lines b c := by
  intro hb
  obtain ⟨l, hl, hcloses⟩ := hb.exists_closes
  rw [(h.get hs ht hl).2.1] at hcloses
  cases hcloses

/-- Steps go on with steps that see them. -/
theorem Steps.trans {m : Nat} (h : Steps lines V s m) (h' : Steps lines (V ∪ Set.Ico s m) m t) :
    Steps lines V s t := by
  have hsm := h.le
  refine ⟨hsm.trans h'.le, fun j hs ht => ?_⟩
  rcases Nat.lt_or_ge j m with hj | hj
  · exact h.line j hs hj
  · have hline := h'.line j hj ht
    rwa [Set.union_assoc, Set.Ico_union_Ico_eq_Ico hsm hj] at hline

theorem citesIn_iff {S : Set Nat} :
    l.CitesIn S ↔ ∃ ps : List Nat, l.cites = ps.map Nat.cast ∧ ∀ i ∈ ps, i ∈ S := by
  constructor
  · intro h
    refine ⟨l.cites.map Int.toNat, ?_, fun i hi => ?_⟩
    · rw [List.map_map, List.map_congr_left (g := id), List.map_id]
      intro n hn
      obtain ⟨i, -, rfl⟩ := h n hn
      rfl
    · obtain ⟨n, hn, rfl⟩ := List.mem_map.mp hi
      obtain ⟨i, hS, rfl⟩ := h n hn
      exact hS
  · rintro ⟨ps, hps, hmem⟩ n hn
    rw [hps] at hn
    obtain ⟨i, hi, rfl⟩ := List.mem_map.mp hn
    exact ⟨i, hmem i hi, rfl⟩

theorem citesIn_singleton {S : Set Nat} {i : Nat} (h : l.cites = [↑i]) (hi : i ∈ S) :
    l.CitesIn S := by
  intro n hn
  rw [h, List.mem_singleton] at hn
  exact ⟨i, hi, hn⟩

theorem mem_cites_iff {earlier : List Nat} {i : Nat}
    (h : l.cites = (earlier ++ List.range' b (c - b)).map Nat.cast) :
    (i : Int) ∈ l.cites ↔ i ∈ earlier ∨ b ≤ i ∧ i < c := by
  rw [h, List.mem_map]
  simp only [List.mem_append, List.mem_range'_1]
  constructor
  · rintro ⟨k, hk, heq⟩
    obtain rfl : k = i := by exact_mod_cast heq
    exact hk.imp_right fun h => ⟨h.1, by omega⟩
  · intro hi
    exact ⟨i, hi.imp_right fun h => ⟨h.1, by omega⟩, rfl⟩

/-- A block begins at its first hypothesis. -/
theorem Ends.isBlock {opener : Rule} {earlier : List Nat} {h : Line}
    (hends : Ends lines V b c opener earlier) (hh : lines[b]? = some h) (hrule : h.rule = opener)
    (hlt : b < c) : IsBlock lines b c := by
  obtain ⟨l, hl, hopener, hcites⟩ := hends.line
  refine ⟨l, hl, blockStart?_eq_some_iff.mpr ⟨⟨h, hh, ?_⟩, fun i hi k hk => ?_⟩⟩
  · simp [discharges, hopener, hrule, mem_cites_iff hcites, hlt]
  · -- a line before the block that is cited is no hypothesis of its kind
    rw [Bool.eq_false_iff]
    intro hdischarges
    simp only [discharges, hopener, Bool.and_eq_true, decide_eq_true_eq, List.contains_iff_mem,
      mem_cites_iff hcites, Option.some.injEq] at hdischarges
    obtain ⟨hkrule, hcited⟩ := hdischarges
    obtain ⟨-, k', hk', hne⟩ := hends.visible i (hcited.resolve_right (by omega))
    obtain rfl := Option.some.inj (hk.symm.trans hk')
    exact hne hkrule.symm

namespace BlockAt

variable {branches : List (Nat × Nat)} {j p q p' q' : Nat}

theorem lt (h : BlockAt lines V b c branches) : b < c := by
  cases h with
  | conditional hlt => exact hlt
  | disjElim hbm hmc => exact hbm.trans hmc

theorem bounds (h : BlockAt lines V b c branches) (hpq : (p, q) ∈ branches) :
    b ≤ p ∧ p < q ∧ q ≤ c := by
  cases h with
  | conditional =>
    simp only [List.mem_singleton, Prod.mk.injEq] at hpq
    omega
  | disjElim =>
    simp only [List.mem_cons, List.not_mem_nil, or_false, Prod.mk.injEq] at hpq
    omega

/-- Every line of a block is in a branch. -/
theorem exists_branch (h : BlockAt lines V b c branches) (hb : b ≤ j) (hc : j < c) :
    ∃ p q, (p, q) ∈ branches ∧ p ≤ j ∧ j < q := by
  cases h with
  | conditional => exact ⟨b, c, by simp, hb, hc⟩
  | @disjElim _ m =>
    rcases Nat.lt_or_ge j m with hj | hj
    · exact ⟨b, m, by simp, hb, hj⟩
    · exact ⟨m, c, by simp, hj, hc⟩

theorem apart (h : BlockAt lines V b c branches) (hpq : (p, q) ∈ branches)
    (hpq' : (p', q') ∈ branches) : p = p' ∧ q = q' ∨ q ≤ p' ∨ q' ≤ p := by
  cases h with
  | conditional =>
    simp only [List.mem_singleton, Prod.mk.injEq] at hpq hpq'
    omega
  | disjElim =>
    simp only [List.mem_cons, List.not_mem_nil, or_false, Prod.mk.injEq] at hpq hpq'
    omega

/-- What a block ends with and what its branches begin with. -/
theorem exists_ends (h : BlockAt lines V b c branches) :
    ∃ opener earlier, opener.closesBlock = false ∧ Ends lines V b c opener earlier ∧
      ∀ p q, (p, q) ∈ branches →
        ∃ h, lines[p]? = some h ∧ h.rule = opener ∧ h.CitesIn V := by
  cases h with
  | @conditional h _ _ hh hrule hcites hends =>
    refine ⟨_, _, rfl, hends, fun p q hpq => ?_⟩
    obtain ⟨rfl, rfl⟩ := Prod.mk.inj (List.mem_singleton.mp hpq)
    exact ⟨h, hh, hrule, by simp [CitesIn, hcites]⟩
  | @disjElim i _ _ h₁ h₂ _ _ _ _ hh₁ hrule₁ hcites₁ hh₂ hrule₂ hcites₂ hends =>
    have hi := (hends.visible i (by simp)).1
    refine ⟨_, _, rfl, hends, fun p q hpq => ?_⟩
    simp only [List.mem_cons, List.not_mem_nil, or_false, Prod.mk.injEq] at hpq
    rcases hpq with ⟨rfl, -⟩ | ⟨rfl, -⟩
    · exact ⟨h₁, hh₁, hrule₁, citesIn_singleton hcites₁ hi⟩
    · exact ⟨h₂, hh₂, hrule₂, citesIn_singleton hcites₂ hi⟩

theorem isBlock (h : BlockAt lines V b c branches) : IsBlock lines b c := by
  obtain ⟨opener, earlier, -, hends, hhyps⟩ := h.exists_ends
  obtain ⟨p, q, hpq, hpb, -⟩ := h.exists_branch (Nat.le_refl b) h.lt
  obtain rfl : p = b := Nat.le_antisymm hpb (h.bounds hpq).1
  obtain ⟨k, hk, hrule, -⟩ := hhyps p q hpq
  exact hends.isBlock hk hrule h.lt

/-- The hypothesis of a branch closes nothing. -/
theorem closesBlock_eq_false (h : BlockAt lines V b c branches) (hpq : (p, q) ∈ branches)
    (hl : lines[p]? = some l) : l.rule.closesBlock = false := by
  obtain ⟨opener, earlier, hcloses, -, hhyps⟩ := h.exists_ends
  obtain ⟨k, hk, hrule, -⟩ := hhyps p q hpq
  obtain rfl := Option.some.inj (hl.symm.trans hk)
  rw [hrule]
  exact hcloses

/-- A line of a branch cites what the block sees and lines of its branch, if
behind the hypothesis it does so. -/
theorem reads (h : BlockAt lines V b c branches) (hpq : (p, q) ∈ branches) (hp : p ≤ j)
    (hl : lines[j]? = some l) (hinside : p < j → l.CitesIn (V ∪ {p} ∪ Set.Ico (p + 1) j)) :
    l.CitesIn (V ∪ Set.Ico p j) := by
  rcases Nat.eq_or_lt_of_le hp with rfl | hp
  · obtain ⟨opener, earlier, -, -, hhyps⟩ := h.exists_ends
    obtain ⟨k, hk, -, hcites⟩ := hhyps p q hpq
    obtain rfl := Option.some.inj (hl.symm.trans hk)
    exact hcites.mono Set.subset_union_left
  · refine (hinside hp).mono fun i hi => ?_
    simp only [Set.mem_union, Set.mem_Ico, Set.mem_singleton_iff] at hi ⊢
    grind

end BlockAt

/-! ### The lines of a layout -/

namespace Layout

variable {branches : List (Nat × Nat)} {j : Nat}

/-- Where a line stands in a layout that ends with a block. -/
theorem place (hblock : BlockAt lines V b c branches) (ht : j < c + 1) :
    j < b ∨ (∃ p q, (p, q) ∈ branches ∧ p ≤ j ∧ j < q) ∨ j = c := by
  rcases Nat.lt_or_ge j b with hj | hj
  · exact .inl hj
  · rcases Nat.lt_or_ge j c with hj' | hj'
    · exact .inr (.inl (hblock.exists_branch hj hj'))
    · exact .inr (.inr (by omega))

/-- Every line of a layout cites what it sees. -/
theorem reads (h : Layout lines V s t) (hs : s ≤ j) (ht : j < t) (hl : lines[j]? = some l) :
    l.CitesIn (V ∪ Set.Ico s j) := by
  induction h with
  | steps h => exact (h.get hs ht hl).2.2
  | @block V s b c branches hsteps hblock hinside ih =>
    have hsb := hsteps.le
    obtain ⟨opener, earlier, -, hends, -⟩ := hblock.exists_ends
    rcases place hblock ht with hj | ⟨p, q, hpq, hpj, hjq⟩ | rfl
    · exact (hsteps.get hs hj hl).2.2
    · have hbp := (hblock.bounds hpq).1
      refine (hblock.reads hpq hpj hl fun hp => ih p q hpq hp hjq).mono fun i hi => ?_
      simp only [Set.mem_union, Set.mem_Ico] at hi ⊢
      grind
    · obtain ⟨l', hl', -, hcites⟩ := hends.line
      obtain rfl := Option.some.inj (hl.symm.trans hl')
      intro n hn
      rw [hcites, List.mem_map] at hn
      obtain ⟨i, hi, rfl⟩ := hn
      refine ⟨i, ?_, rfl⟩
      simp only [List.mem_append, List.mem_range'_1] at hi
      rcases hi with hi | hi
      · exact Set.union_subset_union_right V (Set.Ico_subset_Ico_right hblock.lt.le)
          (hends.visible i hi).1
      · exact .inr ⟨by omega, by omega⟩

/-- Every line of a branch cites what the block sees and lines of its own
branch. -/
theorem reads_branch {p q : Nat} (hblock : BlockAt lines V b c branches)
    (hinside : ∀ p q, (p, q) ∈ branches → Layout lines (V ∪ {p}) (p + 1) q)
    (hpq : (p, q) ∈ branches) (hp : p ≤ j) (hq : j < q) (hl : lines[j]? = some l) :
    l.CitesIn (V ∪ Set.Ico p j) :=
  hblock.reads hpq hp hl fun hp => (hinside p q hpq).reads hp hq hl

/-! ### The blocks of a layout

What a layout sees stands before it, and so what a block and the inside of a
branch see stands before them. -/

theorem visible_block (hV : V ⊆ Set.Iio s) (hsb : s ≤ b) : V ∪ Set.Ico s b ⊆ Set.Iio b :=
  Set.union_subset (hV.trans (Set.Iio_subset_Iio hsb)) fun _ hi => hi.2

theorem visible_inside {p : Nat} (hV : V ⊆ Set.Iio b) (hbp : b ≤ p) :
    V ∪ {p} ⊆ Set.Iio (p + 1) := by
  apply Set.union_subset (hV.trans (Set.Iio_subset_Iio (by omega)))
  rintro i rfl
  exact Nat.lt_succ_self i

/-- A line that closes a block ends a block of the layout. -/
theorem exists_blockAt (h : Layout lines V s t) (hV : V ⊆ Set.Iio s) (hs : s ≤ j) (ht : j < t)
    (hl : lines[j]? = some l) (hcloses : l.rule.closesBlock = true) :
    ∃ W b branches, s ≤ b ∧ W ⊆ Set.Iio b ∧ BlockAt lines W b j branches ∧
      ∀ p q, (p, q) ∈ branches → Layout lines (W ∪ {p}) (p + 1) q := by
  induction h with
  | steps h =>
    rw [(h.get hs ht hl).2.1] at hcloses
    cases hcloses
  | @block V s b c branches hsteps hblock hinside ih =>
    have hsb := hsteps.le
    have hW := visible_block hV hsb
    rcases place hblock ht with hj | ⟨p, q, hpq, hpj, hjq⟩ | rfl
    · rw [(hsteps.get hs hj hl).2.1] at hcloses
      cases hcloses
    · have hbp := (hblock.bounds hpq).1
      rcases Nat.eq_or_lt_of_le hpj with rfl | hpj
      · rw [hblock.closesBlock_eq_false hpq hl] at hcloses
        cases hcloses
      · obtain ⟨W, b', branches', hb', hrest⟩ :=
          ih p q hpq (visible_inside hW hbp) hpj hjq
        exact ⟨W, b', branches', by omega, hrest⟩
    · exact ⟨_, b, branches, hsb, hW, hblock, hinside⟩

/-- A hypothesis begins a branch of a block of the layout. -/
theorem exists_blockAt_of_opens (h : Layout lines V s t) (hs : s ≤ j) (ht : j < t)
    (hl : lines[j]? = some l) (hopens : l.rule.opensBlock = true) :
    ∃ W b c branches q, BlockAt lines W b c branches ∧ (j, q) ∈ branches := by
  induction h with
  | steps h =>
    rw [(h.get hs ht hl).1] at hopens
    cases hopens
  | @block V s b c branches hsteps hblock hinside ih =>
    rcases place hblock ht with hj | ⟨p, q, hpq, hpj, hjq⟩ | rfl
    · rw [(hsteps.get hs hj hl).1] at hopens
      cases hopens
    · rcases Nat.eq_or_lt_of_le hpj with rfl | hpj
      · exact ⟨_, b, c, branches, q, hblock, hpq⟩
      · exact ih p q hpq hpj hjq
    · obtain ⟨opener, earlier, -, hends, -⟩ := hblock.exists_ends
      obtain ⟨l', hl', hopener, -⟩ := hends.line
      obtain rfl := Option.some.inj (hl.symm.trans hl')
      rw [Rule.opener_eq_none_of_opensBlock hopens] at hopener
      cases hopener

/-- A block that a layout closes begins in the layout. -/
theorem block_bounds (h : Layout lines V s t) (hV : V ⊆ Set.Iio s) (hb : IsBlock lines b c)
    (hs : s ≤ c) (ht : c < t) : s ≤ b ∧ b < c := by
  obtain ⟨l, hl, hcloses⟩ := hb.exists_closes
  obtain ⟨W, b', branches, hsb, -, hblock, hinside⟩ := h.exists_blockAt hV hs ht hl hcloses
  obtain rfl := hblock.isBlock.unique hb
  exact ⟨hsb, hblock.lt⟩

/-- A block of a layout that ends with a block is that one, or it is inside a
branch. -/
theorem block_cases (hV : V ⊆ Set.Iio s) (hsteps : Steps lines V s b)
    (hblock : BlockAt lines (V ∪ Set.Ico s b) b c branches)
    (hinside : ∀ p q, (p, q) ∈ branches → Layout lines (V ∪ Set.Ico s b ∪ {p}) (p + 1) q)
    (hb : IsBlock lines b' c') (hs : s ≤ c') (ht : c' < c + 1) :
    b' = b ∧ c' = c ∨ ∃ p q, (p, q) ∈ branches ∧ p < b' ∧ b' < c' ∧ c' < q := by
  obtain ⟨l, hl, hcloses⟩ := hb.exists_closes
  rcases place hblock ht with hc | ⟨p, q, hpq, hpc, hcq⟩ | rfl
  · exact absurd hb (hsteps.not_isBlock hs hc)
  · rcases Nat.eq_or_lt_of_le hpc with rfl | hpc
    · rw [hblock.closesBlock_eq_false hpq hl] at hcloses
      cases hcloses
    · have hbp := (hblock.bounds hpq).1
      have hsees := visible_inside (visible_block hV hsteps.le) hbp
      have hbounds := (hinside p q hpq).block_bounds hsees hb hpc hcq
      exact .inr ⟨p, q, hpq, hbounds.1, hbounds.2, hcq⟩
  · exact .inl ⟨hb.unique hblock.isBlock, rfl⟩

/-- **Two blocks of a layout are disjoint, or one is inside the other.** -/
theorem nested (h : Layout lines V s t) (hV : V ⊆ Set.Iio s) (hb : IsBlock lines b c)
    (hs : s ≤ c) (ht : c < t) (hb' : IsBlock lines b' c') (hs' : s ≤ c') (ht' : c' < t) :
    c ≤ b' ∨ c' ≤ b ∨ (b ≤ b' ∧ c' ≤ c) ∨ (b' ≤ b ∧ c ≤ c') := by
  induction h with
  | steps h => exact absurd hb (h.not_isBlock hs ht)
  | @block V s b₀ c₀ branches hsteps hblock hinside ih =>
    rcases block_cases hV hsteps hblock hinside hb hs ht with
        ⟨rfl, rfl⟩ | ⟨p, q, hpq, hp, hbc, hq⟩ <;>
      rcases block_cases hV hsteps hblock hinside hb' hs' ht' with
        ⟨rfl, rfl⟩ | ⟨p', q', hpq', hp', hbc', hq'⟩
    · omega
    · have := hblock.bounds hpq'
      omega
    · have := hblock.bounds hpq
      omega
    · -- in one branch the blocks are those of its layout, in two they are apart
      rcases hblock.apart hpq hpq' with ⟨rfl, rfl⟩ | hapart
      · have hbp := (hblock.bounds hpq).1
        have hsees := visible_inside (visible_block hV hsteps.le) hbp
        exact ih p q hpq hsees (by omega) hq (by omega) hq'
      · omega

/-- **A citation does not lead into a closed block.**  A block that contains a
line cited from outside its own block contains the citing line. -/
theorem inScope {i : Nat} (h : Layout lines V s t) (hV : V ⊆ Set.Iio s) (hs : s ≤ j) (ht : j < t)
    (hl : lines[j]? = some l) (hi : (i : Int) ∈ l.cites) (hout : ∀ b, IsBlock lines b j → i < b)
    (hb : IsBlock lines b c) (hs' : s ≤ c) (ht' : c < t) (hbi : b ≤ i) (hic : i < c) : j < c := by
  induction h with
  | steps h => exact absurd hb (h.not_isBlock hs' ht')
  | @block V s b₀ c₀ branches hsteps hblock hinside ih =>
    have hsees := visible_block hV hsteps.le
    rcases block_cases hV hsteps hblock hinside hb hs' ht' with
      ⟨rfl, rfl⟩ | ⟨p, q, hpq, hp, hbc, hq⟩
    · -- the line that closes the block cites nothing more of it from outside
      by_contra hjc
      obtain rfl : j = c := by omega
      have := hout b hb
      omega
    · have hbp := (hblock.bounds hpq).1
      rcases place hblock ht with hj | ⟨p', q', hpq', hpj, hjq⟩ | rfl
      · omega
      · obtain ⟨i', hread, hi'⟩ := reads_branch hblock hinside hpq' hpj hjq hl i hi
        obtain rfl : i = i' := by exact_mod_cast hi'
        rcases hread with hread | ⟨hpi, hij⟩
        · have : i < b₀ := hsees hread
          omega
        · -- the cited line is in the branch of the citing one
          rcases hblock.apart hpq hpq' with ⟨rfl, rfl⟩ | hapart
          · exact ih p q hpq (visible_inside hsees hbp) (by omega) hjq (by omega) hq
          · omega
      · have := hout b₀ hblock.isBlock
        omega

/-- A layout may begin with more steps. -/
theorem prepend {m : Nat} (hsteps : Steps lines V s m)
    (h : Layout lines (V ∪ Set.Ico s m) m t) : Layout lines V s t := by
  cases h with
  | steps h => exact .steps (hsteps.trans h)
  | @block _ _ b _ _ h hblock hinside =>
    rw [Set.union_assoc, Set.Ico_union_Ico_eq_Ico hsteps.le h.le] at hblock
    refine .block (hsteps.trans h) hblock fun p q hpq => ?_
    have hlayout := hinside p q hpq
    rwa [Set.union_assoc V, Set.Ico_union_Ico_eq_Ico hsteps.le h.le] at hlayout

/-! ### Layouts of whole sequences -/

/-- Every hypothesis of a layout is discharged. -/
theorem openBlocks_eq_nil (h : Layout lines ∅ 0 lines.length) : openBlocks lines = [] := by
  rw [openBlocks, List.map_eq_nil_iff, openHypotheses, List.filter_eq_nil_iff]
  rintro ⟨k, i⟩ hk
  rw [List.mk_mem_zipIdx_iff_getElem?] at hk
  simp only [Bool.and_eq_true, Bool.not_eq_true', not_and, Bool.not_eq_false, List.any_eq_true]
  intro hopens
  obtain ⟨W, b, c, branches, q, hblock, hiq⟩ :=
    h.exists_blockAt_of_opens (Nat.zero_le i) (List.getElem?_eq_some_iff.mp hk).1 hk hopens
  obtain ⟨opener, earlier, -, hends, hhyps⟩ := hblock.exists_ends
  obtain ⟨l, hl, hopener, hcites⟩ := hends.line
  obtain ⟨k', hk', hrule, -⟩ := hhyps i q hiq
  obtain rfl := Option.some.inj (hk.symm.trans hk')
  have hbounds := hblock.bounds hiq
  have hcited : (i : Int) ∈ l.cites := (mem_cites_iff hcites).mpr (.inr (by omega))
  exact ⟨l, List.mem_of_getElem? hl, by simp [discharges, hopener, hrule, hcited]⟩

/-- A block of the sequence is one of the layout. -/
theorem blockAt_of_isBlock (h : Layout lines ∅ 0 lines.length) (hb : IsBlock lines b c) :
    ∃ W branches, W ⊆ Set.Iio b ∧ BlockAt lines W b c branches ∧
      ∀ p q, (p, q) ∈ branches → Layout lines (W ∪ {p}) (p + 1) q := by
  obtain ⟨l, hl, hcloses⟩ := hb.exists_closes
  obtain ⟨W, b', branches, -, hW, hblock, hinside⟩ :=
    h.exists_blockAt (Set.empty_subset _) (Nat.zero_le c) (List.getElem?_eq_some_iff.mp hl).1 hl
      hcloses
  obtain rfl := hblock.isBlock.unique hb
  exact ⟨W, branches, hW, hblock, hinside⟩

/-- The branches of a disjunction elimination. -/
theorem branched (h : Layout lines ∅ 0 lines.length) (hb : IsBlock lines b c)
    (hl : lines[c]? = some l) (hrule : l.rule = .disjElim) :
    ∃ i m, l.cites = (i :: List.range' b (c - b)).map Nat.cast ∧ Branched lines i b m c := by
  obtain ⟨W, branches, hW, hblock, hinside⟩ := h.blockAt_of_isBlock hb
  have hreads : ∀ p q j k, (p, q) ∈ branches → p ≤ j → j < q → lines[j]? = some k →
      k.CitesIn (W ∪ Set.Ico p j) :=
    fun p q j k hpq hp hq hk => reads_branch hblock hinside hpq hp hq hk
  cases hblock with
  | conditional _ _ _ _ hends =>
    obtain ⟨l', hl', hopener, -⟩ := hends.line
    obtain rfl := Option.some.inj (hl.symm.trans hl')
    rw [hrule] at hopener
    cases hopener
  | @disjElim i m d h₁ h₂ hbm hmc hd hf hh₁ hrule₁ _ hh₂ hrule₂ _ hends hquiet =>
    obtain ⟨l', hl', -, hcites⟩ := hends.line
    obtain rfl := Option.some.inj (hl.symm.trans hl')
    refine ⟨i, m, hcites, ?_⟩
    exact {
      before := hW (hends.visible i (by simp)).1
      first := hbm
      second := hmc
      sides := ⟨d, h₁, h₂, hd, hh₁, hh₂, hf⟩
      hypotheses := by
        intro j k hbj hjc hk
        constructor
        · intro hkrule
          by_contra hne
          obtain ⟨k', hk', hne'⟩ := hquiet j (by omega) hjc (by omega)
          obtain rfl := Option.some.inj (hk.symm.trans hk')
          exact hne' hkrule
        · rintro (rfl | rfl)
          · obtain rfl := Option.some.inj (hk.symm.trans hh₁)
            exact hrule₁
          · obtain rfl := Option.some.inj (hk.symm.trans hh₂)
            exact hrule₂
      apart := by
        intro j k hmj hjc hk n hn
        obtain ⟨i, hi, rfl⟩ := hreads m c j k (by simp) hmj hjc hk n hn
        rcases hi with hi | ⟨hmi, -⟩
        · have : i < b := hW hi
          omega
        · omega }

/-- **A sequence that is laid out in blocks is well scoped.** -/
theorem wellScoped (h : Layout lines ∅ 0 lines.length) : WellScoped lines where
  closed := h.openBlocks_eq_nil
  block := by
    intro c l hl hcloses
    obtain ⟨W, b, branches, -, -, hblock, hinside⟩ :=
      h.exists_blockAt (Set.empty_subset _) (Nat.zero_le c) (List.getElem?_eq_some_iff.mp hl).1 hl
        hcloses
    exact ⟨b, hblock.lt, hblock.isBlock⟩
  nested := by
    intro b c b' c' hb hb'
    obtain ⟨l, hl, -⟩ := hb.exists_closes
    obtain ⟨l', hl', -⟩ := hb'.exists_closes
    exact h.nested (Set.empty_subset _) hb (Nat.zero_le c) (List.getElem?_eq_some_iff.mp hl).1
      hb' (Nat.zero_le c') (List.getElem?_eq_some_iff.mp hl').1
  cites := by
    intro b c l hb hl
    obtain ⟨W, branches, hW, hblock, -⟩ := h.blockAt_of_isBlock hb
    obtain ⟨opener, earlier, -, hends, -⟩ := hblock.exists_ends
    obtain ⟨l', hl', -, hcites⟩ := hends.line
    obtain rfl := Option.some.inj (hl.symm.trans hl')
    exact ⟨earlier, hcites, hends.few, fun i hi => hW (hends.visible i hi).1⟩
  branched := fun b c l hb hl hrule => h.branched hb hl hrule
  inScope := by
    intro j l hl n hn hout b c hb hbn hnc
    have hj := (List.getElem?_eq_some_iff.mp hl).1
    obtain ⟨k, hk, -⟩ := hb.exists_closes
    obtain ⟨i, hread, rfl⟩ := h.reads (Nat.zero_le j) hj hl n hn
    have hij : i < j := by simpa using hread
    -- whatever block the citing line closes begins behind the cited line
    have hout' : ∀ b, IsBlock lines b j → i < b := by
      intro b' hb'
      rcases hout with hcloses | ⟨b'', hb'', hlt⟩
      · obtain ⟨l', hl', hcloses'⟩ := hb'.exists_closes
        obtain rfl := Option.some.inj (hl.symm.trans hl')
        rw [hcloses] at hcloses'
        cases hcloses'
      · rw [hb'.unique hb'']
        omega
    have hjc := h.inScope (Set.empty_subset _) (Nat.zero_le j) hj hl hn hout' hb (Nat.zero_le c)
      (List.getElem?_eq_some_iff.mp hk).1 (by omega) (by omega)
    exact ⟨by omega, hjc⟩

end Layout

end Line

end NaturalDeduction
