/-
The printed depth of a line is the number of blocks around it.

Depths are computed in one pass that looks at rules only: it keeps a stack of
the kinds of block that were opened, and a closing line takes the topmost of
its kind off together with whatever is above it.  It never looks at a citation.
Blocks, on the other hand, are what closing lines cite (`IsBlock`).

Where the lines are laid out in blocks and no block contains another of its own
kind, the two agree.  Behind a layout the stack is as it was before
(`Tracks.after`), and in the layout it has one entry for each block around the
line, with no kind twice (`Tracks.line`).  This is one induction over the layout
(`Layout.trackable`); the inside of a branch is tracked above a stack that has
grown by the kind of the block.

Since there are two kinds of block, no line is deeper than two
(`Tracks.depth_le_two`).
-/
import Mathlib.Order.Interval.Finset.Nat
import NaturalDeduction.Proofs.Search.Depth
import NaturalDeduction.Proofs.Search.Derived
import NaturalDeduction.Proofs.Search.Scope

namespace NaturalDeduction

theorem Rule.opensBlock_eq_false_of_opener {r opener : Rule} (h : r.opener = some opener) :
    r.opensBlock = false := by
  rw [Bool.eq_false_iff]
  intro hopens
  rw [Rule.opener_eq_none_of_opensBlock hopens] at h
  cases h

namespace Line

variable {lines : List Line} {l : Line} {V : Set Nat} {blocks : List Rule} {r opener : Rule}
  {b c i j p q s t : Nat}

/-! ### The stack -/

theorem blocksAfter_of_step (hopens : r.opensBlock = false) (hcloses : r.closesBlock = false) :
    blocksAfter blocks r = blocks := by
  rw [Rule.closesBlock, Option.isSome_eq_false_iff, Option.isNone_iff_eq_none] at hcloses
  rw [blocksAfter, hopens, hcloses]
  rfl

theorem blocksAfter_of_opens (hopens : r.opensBlock = true) (hnew : r ∉ blocks) :
    blocksAfter blocks r = r :: blocks := by
  rw [blocksAfter, if_pos hopens, if_neg]
  rintro ⟨-, hhead⟩
  exact hnew (List.mem_of_mem_head? hhead)

/-- The second hypothesis of a disjunction elimination takes the place of the
first. -/
theorem blocksAfter_disjHypothesis :
    blocksAfter (.disjHypothesis :: blocks) .disjHypothesis = .disjHypothesis :: blocks :=
  rfl

theorem blocksAfter_of_closes (h : r.opener = some opener) :
    blocksAfter (opener :: blocks) r = blocks := by
  rw [blocksAfter, Rule.opensBlock_eq_false_of_opener h, h]
  simp

theorem opensBlock_of_mem_blocksAfter (hblocks : ∀ k ∈ blocks, k.opensBlock = true)
    (hopener : opener ∈ blocksAfter blocks r) : opener.opensBlock = true := by
  rw [blocksAfter] at hopener
  split at hopener
  · next hopens =>
    split at hopener
    · exact hblocks opener hopener
    · rcases List.mem_cons.mp hopener with rfl | hmem
      · exact hopens
      · exact hblocks opener hmem
  · split at hopener
    · exact hblocks opener (List.dropWhile_subset _ (List.mem_of_mem_tail hopener))
    · exact hblocks opener hopener

/-- The stack that the line at place `i` finds. -/
def blocksBefore (lines : List Line) (i : Nat) : List Rule :=
  (lines.take i).foldl (fun blocks l => blocksAfter blocks l.rule) []

theorem blocksBefore_succ (hl : lines[i]? = some l) :
    blocksBefore lines (i + 1) = blocksAfter (blocksBefore lines i) l.rule := by
  rw [blocksBefore, List.take_add_one, hl, List.foldl_append]
  rfl

theorem depthsWithin_eq (blocks : List Rule) (lines : List Line) :
    depthsWithin blocks lines = (List.range lines.length).map fun i =>
      ((lines.take (i + 1)).foldl (fun blocks l => blocksAfter blocks l.rule) blocks).length := by
  induction lines generalizing blocks with
  | nil => rfl
  | cons l lines ih =>
    rw [depthsWithin, ih, List.length_cons, List.range_succ_eq_map, List.map_cons, List.map_map]
    rfl

/-- The depth of a line is the height of the stack that it leaves. -/
theorem blockDepths_eq (lines : List Line) :
    blockDepths lines
      = (List.range lines.length).map fun i => (blocksBefore lines (i + 1)).length :=
  depthsWithin_eq [] lines

theorem getElem?_blockDepths (hi : i < lines.length) :
    (blockDepths lines)[i]? = some (blocksBefore lines (i + 1)).length := by
  rw [blockDepths_eq, List.getElem?_map, List.getElem?_range hi]
  rfl

theorem opensBlock_of_mem_blocksBefore (h : opener ∈ blocksBefore lines i) :
    opener.opensBlock = true := by
  induction i generalizing opener with
  | zero => cases h
  | succ i ih =>
    rcases Nat.lt_or_ge i lines.length with hi | hi
    · rw [blocksBefore_succ (List.getElem?_eq_getElem hi)] at h
      exact opensBlock_of_mem_blocksAfter (fun k hk => ih hk) h
    · -- past the last line nothing changes
      rw [blocksBefore, List.take_of_length_le (by omega), ← List.take_of_length_le hi] at h
      exact ih h

/-! ### The blocks around a line -/

/-- The places before `t` of the lines that close a block around the line at
place `i`. -/
def around (lines : List Line) (i t : Nat) : Finset Nat :=
  (Finset.Ioo i t).filter fun c => lines[c]?.any fun l => (blockStart? lines l).any (· ≤ i)

theorem mem_around : c ∈ around lines i t ↔ i < c ∧ c < t ∧ ∃ b ≤ i, IsBlock lines b c := by
  simp only [around, Finset.mem_filter, Finset.mem_Ioo, Option.any_eq_true, decide_eq_true_eq,
    and_assoc, IsBlock]
  grind

/-- The number of blocks around the line at place `i`: of the lines behind it
that close a block which begins with this line or before it. -/
def blocksAround (lines : List Line) (i : Nat) : Nat :=
  (around lines i lines.length).card

theorem around_eq_empty_of_forall (h : ∀ b c, b ≤ j → j < c → c < t → ¬ IsBlock lines b c) :
    around lines j t = ∅ := by
  apply Finset.eq_empty_of_forall_notMem
  intro c hc
  obtain ⟨hjc, hct, b, hbj, hb⟩ := mem_around.mp hc
  exact h b c hbj hjc hct hb

theorem Steps.around_eq_empty (h : Steps lines V s t) (hs : s ≤ j) : around lines j t = ∅ := by
  apply around_eq_empty_of_forall
  intro b c _ hjc hct
  exact h.not_isBlock (hs.trans hjc.le) hct

namespace Layout

variable {branches : List (Nat × Nat)}

/-- No block of a layout is around the line before it. -/
theorem around_eq_empty (h : Layout lines V (j + 1) t) (hV : V ⊆ Set.Iio (j + 1)) :
    around lines j t = ∅ := by
  apply around_eq_empty_of_forall
  intro b c hbj hjc hct hb
  have := (h.block_bounds hV hb hjc hct).1
  omega

/-- No block is around the steps that a layout begins with. -/
theorem around_eq_empty_of_lt (hV : V ⊆ Set.Iio s) (hsteps : Steps lines V s b)
    (hblock : BlockAt lines (V ∪ Set.Ico s b) b c branches)
    (hinside : ∀ p q, (p, q) ∈ branches → Layout lines (V ∪ Set.Ico s b ∪ {p}) (p + 1) q)
    (hs : s ≤ j) (hj : j < b) : around lines j (c + 1) = ∅ := by
  apply around_eq_empty_of_forall
  intro b' c' hbj hjc hct hb'
  rcases block_cases hV hsteps hblock hinside hb' (by omega) hct with
    ⟨rfl, rfl⟩ | ⟨p, q, hpq, hp, -, -⟩
  · omega
  · have := (hblock.bounds hpq).1
    omega

/-- Around a line of a branch are the block of the branch and what is around the
line in the branch. -/
theorem around_eq_insert (hV : V ⊆ Set.Iio s) (hsteps : Steps lines V s b)
    (hblock : BlockAt lines (V ∪ Set.Ico s b) b c branches)
    (hinside : ∀ p q, (p, q) ∈ branches → Layout lines (V ∪ Set.Ico s b ∪ {p}) (p + 1) q)
    (hpq : (p, q) ∈ branches) (hp : p ≤ j) (hq : j < q) :
    around lines j (c + 1) = insert c (around lines j q) := by
  have hsb := hsteps.le
  obtain ⟨hbp, -, hqc⟩ := hblock.bounds hpq
  ext c'
  rw [Finset.mem_insert, mem_around, mem_around]
  constructor
  · rintro ⟨hjc, hct, b', hbj, hb'⟩
    rcases block_cases hV hsteps hblock hinside hb' (by omega) hct with
      ⟨-, rfl⟩ | ⟨p', q', hpq', hp', -, hq'⟩
    · exact .inl rfl
    · -- the branch that the inner block is in contains the line
      rcases hblock.apart hpq hpq' with ⟨rfl, rfl⟩ | hapart
      · exact .inr ⟨hjc, hq', b', hbj, hb'⟩
      · omega
  · rintro (rfl | ⟨hjc, hcq, hb'⟩)
    · exact ⟨by omega, by omega, b, by omega, hblock.isBlock⟩
    · exact ⟨hjc, by omega, hb'⟩

end Layout

/-! ### The stack along a layout -/

/-- No line from `s` to before `t` is a hypothesis of one of the kinds. -/
def Avoids (lines : List Line) (blocks : List Rule) (s t : Nat) : Prop :=
  ∀ j l, s ≤ j → j < t → lines[j]? = some l → l.rule ∉ blocks

theorem Avoids.mono {s' t' : Nat} (h : Avoids lines blocks s t) (hs : s ≤ s') (ht : t' ≤ t) :
    Avoids lines blocks s' t' := by
  intro j l hj hjt hl
  exact h j l (by omega) (by omega) hl

/-- The pass comes through the lines from `s` to before `t` with `blocks` on the
stack: it leaves them there, has one more entry for each block around a line,
and has no kind twice. -/
structure Tracks (lines : List Line) (blocks : List Rule) (s t : Nat) : Prop where
  after : blocksBefore lines t = blocks
  line : ∀ j, s ≤ j → j < t →
    (blocksBefore lines (j + 1)).length = (around lines j t).card + blocks.length ∧
      (blocksBefore lines (j + 1)).Nodup

/-- The lines from `s` to before `t` are tracked whatever is on the stack, as
long as no line opens a block of a kind that is. -/
def Trackable (lines : List Line) (s t : Nat) : Prop :=
  (blocksBefore lines s).Nodup → Avoids lines (blocksBefore lines s) s t →
    Tracks lines (blocksBefore lines s) s t

theorem Steps.blocksBefore_eq (h : Steps lines V s t) (hs : s ≤ j) (ht : j ≤ t) :
    blocksBefore lines j = blocksBefore lines s := by
  induction j, hs using Nat.le_induction with
  | base => rfl
  | succ j hs ih =>
    obtain ⟨l, hl, hopens, hcloses, -⟩ := h.line j hs ht
    rw [blocksBefore_succ hl, blocksAfter_of_step hopens hcloses]
    exact ih (by omega)

theorem Steps.trackable (h : Steps lines V s t) : Trackable lines s t := by
  intro hnodup _
  refine ⟨h.blocksBefore_eq h.le (Nat.le_refl t), fun j hs ht => ?_⟩
  rw [h.blocksBefore_eq (by omega) ht, h.around_eq_empty hs, Finset.card_empty, Nat.zero_add]
  exact ⟨rfl, hnodup⟩

namespace BlockAt

variable {branches : List (Nat × Nat)}

/-- A hypothesis that leaves its kind on top of the stack, with no other of the
kind in its branch, is the beginning of a branch that is tracked. -/
theorem tracks_branch {h : Line} (hp : lines[p]? = some h) (hrule : h.rule = opener)
    (htop : blocksAfter (blocksBefore lines p) opener = opener :: blocks)
    (hnodup : (opener :: blocks).Nodup)
    (hquiet : ∀ j, p < j → j < q → ∃ k, lines[j]? = some k ∧ k.rule ≠ opener)
    (havoids : Avoids lines blocks p q) (hinside : Trackable lines (p + 1) q) :
    blocksBefore lines (p + 1) = opener :: blocks ∧ Tracks lines (opener :: blocks) (p + 1) q := by
  have hbefore : blocksBefore lines (p + 1) = opener :: blocks := by
    rw [blocksBefore_succ hp, hrule, htop]
  rw [Trackable, hbefore] at hinside
  refine ⟨hbefore, hinside hnodup fun j l hj hjq hl => ?_⟩
  obtain ⟨k, hk, hne⟩ := hquiet j hj hjq
  obtain rfl := Option.some.inj (hl.symm.trans hk)
  rw [List.mem_cons, not_or]
  exact ⟨hne, havoids j l (by omega) hjq hl⟩

/-- The branches of a block are tracked above one more entry, and the closing
line takes it off. -/
theorem exists_tracks (hblock : BlockAt lines V b c branches)
    (hnodup : (blocksBefore lines b).Nodup)
    (havoids : Avoids lines (blocksBefore lines b) b (c + 1))
    (hinside : ∀ p q, (p, q) ∈ branches → Trackable lines (p + 1) q) :
    blocksBefore lines (c + 1) = blocksBefore lines b ∧ ∃ opener,
      (opener :: blocksBefore lines b).Nodup ∧ ∀ p q, (p, q) ∈ branches →
        blocksBefore lines (p + 1) = opener :: blocksBefore lines b ∧
          Tracks lines (opener :: blocksBefore lines b) (p + 1) q := by
  have hlt := hblock.lt
  cases hblock with
  | conditional _ hh hrule _ hends hquiet =>
    have hnew := havoids b _ (Nat.le_refl b) (by omega) hh
    rw [hrule] at hnew
    have hcons := List.nodup_cons.mpr ⟨hnew, hnodup⟩
    have hbranch := tracks_branch hh hrule (blocksAfter_of_opens rfl hnew) hcons hquiet
      (havoids.mono (Nat.le_refl b) (Nat.le_succ c)) (hinside b c (by simp))
    obtain ⟨l, hl, hopener, -⟩ := hends.line
    refine ⟨?_, _, hcons, fun p q hpq => ?_⟩
    · rw [blocksBefore_succ hl, hbranch.2.after, blocksAfter_of_closes hopener]
    · obtain ⟨rfl, rfl⟩ := Prod.mk.inj (List.mem_singleton.mp hpq)
      exact hbranch
  | @disjElim i m d h₁ h₂ hbm hmc _ _ hh₁ hrule₁ _ hh₂ hrule₂ _ hends hquiet =>
    have hnew := havoids b _ (Nat.le_refl b) (by omega) hh₁
    rw [hrule₁] at hnew
    have hcons := List.nodup_cons.mpr ⟨hnew, hnodup⟩
    have hfirst := tracks_branch hh₁ hrule₁ (blocksAfter_of_opens rfl hnew) hcons
      (fun j hlo hhi => hquiet j hlo (by omega) (by omega))
      (havoids.mono (Nat.le_refl b) (by omega)) (hinside b m (by simp))
    -- the second hypothesis finds the first on top and takes its place
    have htop : blocksAfter (blocksBefore lines m) .disjHypothesis
        = .disjHypothesis :: blocksBefore lines b := by
      rw [hfirst.2.after, blocksAfter_disjHypothesis]
    have hsecond := tracks_branch hh₂ hrule₂ htop hcons
      (fun j hlo hhi => hquiet j (by omega) hhi (by omega))
      (havoids.mono hbm.le (Nat.le_succ c)) (hinside m c (by simp))
    obtain ⟨l, hl, hopener, -⟩ := hends.line
    refine ⟨?_, _, hcons, fun p q hpq => ?_⟩
    · rw [blocksBefore_succ hl, hsecond.2.after, blocksAfter_of_closes hopener]
    · simp only [List.mem_cons, List.not_mem_nil, or_false, Prod.mk.injEq] at hpq
      rcases hpq with ⟨rfl, rfl⟩ | ⟨rfl, rfl⟩
      · exact hfirst
      · exact hsecond

end BlockAt

/-- **The pass tracks the blocks of a layout.** -/
theorem Layout.trackable (h : Layout lines V s t) (hV : V ⊆ Set.Iio s) : Trackable lines s t := by
  induction h with
  | steps h => exact h.trackable
  | @block V s b c branches hsteps hblock hinside ih =>
    intro hnodup havoids
    have hsb := hsteps.le
    have hsees := visible_block hV hsb
    have hbefore : blocksBefore lines b = blocksBefore lines s :=
      hsteps.blocksBefore_eq hsb (Nat.le_refl b)
    rw [← hbefore] at hnodup havoids ⊢
    obtain ⟨hafter, opener, hcons, hbranches⟩ := hblock.exists_tracks hnodup
      (havoids.mono hsb (Nat.le_refl _))
      fun p q hpq => ih p q hpq (visible_inside hsees (hblock.bounds hpq).1)
    refine ⟨hafter, fun j hs ht => ?_⟩
    -- the line is before the block, in a branch of it or closes it
    rcases place hblock ht with hj | ⟨p, q, hpq, hpj, hjq⟩ | rfl
    · rw [hsteps.blocksBefore_eq (by omega) hj, ← hbefore,
        around_eq_empty_of_lt hV hsteps hblock hinside hs hj, Finset.card_empty, Nat.zero_add]
      exact ⟨rfl, hnodup⟩
    · obtain ⟨hfirst, htracks⟩ := hbranches p q hpq
      have hline : (blocksBefore lines (j + 1)).length
            = (around lines j q).card + (opener :: blocksBefore lines b).length ∧
          (blocksBefore lines (j + 1)).Nodup := by
        rcases Nat.eq_or_lt_of_le hpj with rfl | hpj
        · have hnone := (hinside p q hpq).around_eq_empty
            (visible_inside hsees (hblock.bounds hpq).1)
          rw [hfirst, hnone, Finset.card_empty, Nat.zero_add]
          exact ⟨rfl, hcons⟩
        · exact htracks.line j hpj hjq
      have hout : c ∉ around lines j q := by
        intro hc
        have := (mem_around.mp hc).2.1
        have := (hblock.bounds hpq).2.2
        omega
      refine ⟨?_, hline.2⟩
      rw [hline.1, around_eq_insert hV hsteps hblock hinside hpq hpj hjq,
        Finset.card_insert_of_notMem hout, List.length_cons]
      omega
    · have hnone : around lines j (j + 1) = ∅ :=
        around_eq_empty_of_forall fun b c _ hjc hct => absurd hct (by omega)
      rw [hafter, hnone, Finset.card_empty, Nat.zero_add]
      exact ⟨rfl, hnodup⟩

/-! ### Whole sequences -/

/-- A sequence that is laid out in blocks is tracked from an empty stack. -/
theorem Layout.tracks_nil (h : Layout lines ∅ 0 lines.length) :
    Tracks lines [] 0 lines.length :=
  h.trackable (Set.empty_subset _) List.nodup_nil fun _ _ _ _ _ => List.not_mem_nil

namespace Tracks

theorem blockDepths_eq_map (h : Tracks lines [] 0 lines.length) :
    blockDepths lines = (List.range lines.length).map (blocksAround lines) := by
  rw [blockDepths_eq]
  apply List.map_congr_left
  intro i hi
  exact (h.line i (Nat.zero_le i) (List.mem_range.mp hi)).1

/-- Every block of a sequence that is tracked is closed at its end. -/
theorem getLast?_blockDepths (h : Tracks lines [] 0 lines.length) (hne : lines ≠ []) :
    (blockDepths lines).getLast? = some 0 := by
  have hpos := List.length_pos_of_ne_nil hne
  have hlength : (blockDepths lines).length = lines.length := by
    rw [blockDepths_eq, List.length_map, List.length_range]
  rw [List.getLast?_eq_getElem?, hlength, getElem?_blockDepths (by omega), Nat.sub_add_cancel hpos,
    h.after]
  rfl

/-- There are two kinds of block, and none is on the stack twice. -/
theorem depth_le_two (h : Tracks lines [] 0 lines.length) {d : Nat} (hd : d ∈ blockDepths lines) :
    d ≤ 2 := by
  rw [blockDepths_eq, List.mem_map] at hd
  obtain ⟨i, hi, rfl⟩ := hd
  have hkinds : blocksBefore lines (i + 1) ⊆ [.disjHypothesis, .conditionalHypothesis] := by
    intro r hr
    simpa using r.eq_of_opensBlock (opensBlock_of_mem_blocksBefore hr)
  have hnodup := (h.line i (Nat.zero_le i) (List.mem_range.mp hi)).2
  exact (hnodup.subperm hkinds).length_le

end Tracks

/-- Assumptions and a layout behind them that sees them are a layout. -/
theorem Layout.ofAssumptions_append {fs : List Formula} {added : List Line}
    (h : Layout (ofAssumptions fs ++ added) (Set.Iio (ofAssumptions fs).length)
      (ofAssumptions fs).length (ofAssumptions fs ++ added).length) :
    Layout (ofAssumptions fs ++ added) ∅ 0 (ofAssumptions fs ++ added).length := by
  apply Layout.prepend ((steps_ofAssumptions fs).append (Nat.le_refl _) added)
  have hsees : ∅ ∪ Set.Ico 0 (ofAssumptions fs).length = Set.Iio (ofAssumptions fs).length := by
    ext i
    simp
  rwa [hsees]

/-- The assumptions that a sequence begins with are not in a block. -/
theorem getElem?_blockDepths_ofAssumptions {fs : List Formula} {added : List Line}
    (hi : i < (ofAssumptions fs).length) :
    (blockDepths (ofAssumptions fs ++ added))[i]? = some 0 := by
  have hsteps := (steps_ofAssumptions fs).append (Nat.le_refl _) added
  rw [getElem?_blockDepths (by rw [List.length_append]; omega),
    hsteps.blocksBefore_eq (Nat.zero_le _) hi]
  rfl

end Line

/-! ### Attempts -/

/-- **The printed depth of a line is the number of blocks around it.**  If the
search of a fresh attempt finds a proof, the attempt ends with its lines, and
the depth of each is the number of lines behind it that close a block which
begins with it or before it.  So assumptions and the last line have depth zero,
and no line is deeper than two. -/
theorem search_blockDepths (assumptions : List Formula) (goal : Formula) (settings : Settings)
    (out : List Line)
    (h : (Attempt.start assumptions goal settings).search.1.ending = .proved out) :
    (Attempt.start assumptions goal settings).search.2.lines = out ∧
    Line.blockDepths out = (List.range out.length).map (Line.blocksAround out) ∧
    (∀ (i : Nat) (l : Line), out[i]? = some l → l.rule = .assumption →
      (Line.blockDepths out)[i]? = some 0) ∧
    (Line.blockDepths out).getLast? = some 0 ∧
    ∀ d ∈ Line.blockDepths out, d ≤ 2 := by
  have hnum := Line.wellNumbered_ofAssumptions assumptions
  have hhead : (Attempt.start assumptions goal settings).node.search.ending = .proved out := h
  have hlayout := Node.layout_search _ hnum (Line.bare_ofAssumptions assumptions) out hhead
  obtain ⟨⟨added, hadded⟩, -, hgoal⟩ := (Node.answers_search _ hnum).continues out hhead
  obtain rfl : Line.ofAssumptions assumptions ++ added = out := hadded
  have htracks := (Line.Layout.ofAssumptions_append hlayout).tracks_nil
  refine ⟨?_, htracks.blockDepths_eq_map, ?_, htracks.getLast?_blockDepths ?_,
    fun d hd => htracks.depth_le_two hd⟩
  · rw [Attempt.search, Attempt.update, hhead]
  · -- what the search adds is no assumption
    intro i l hl hrule
    apply Line.getElem?_blockDepths_ofAssumptions
    by_contra hi
    rw [List.getElem?_append_right (Nat.le_of_not_lt hi)] at hl
    exact Node.search_derived _ hnum added hhead l (List.mem_of_getElem? hl) hrule
  · intro hnil
    rw [hnil] at hgoal
    cases hgoal

/-- In a disjunction elimination with a conditional proof in each branch, lines
are as deep as they can be. -/
theorem turnedUnderHypothesis_blockDepths :
    Line.blockDepths turnedUnderHypothesis.search.2.lines = [0, 1, 2, 2, 1, 1, 2, 2, 1, 0] ∧
    Line.blockDepths turnedUnderHypothesis.search.2.lines
      = (List.range turnedUnderHypothesis.search.2.lines.length).map
          (Line.blocksAround turnedUnderHypothesis.search.2.lines) := by
  have hfinished : turnedUnderHypothesis.search.1.status = .finished := by decide +kernel
  obtain ⟨out, hout⟩ := Run.exists_proved hfinished
  obtain ⟨hlines, hdepths, -⟩ := search_blockDepths _ _ _ out hout
  refine ⟨by decide +kernel, ?_⟩
  rw [turnedUnderHypothesis, hlines]
  exact hdepths

end NaturalDeduction
