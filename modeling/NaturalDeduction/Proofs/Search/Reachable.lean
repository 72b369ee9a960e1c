/-
How far the search has looked.

The nodes that a search could ever come to are those reachable from its head:
an incomplete node within the bound on lines is followed by each of its
candidates (`Node.Reachable`).  A search that keeps no account of the states
seen works through all of them in the order of their lengths.

The invariant is `Frontier.Covers`: of the reachable nodes within the bound,
each has been expanded and no candidate of it states the goal (`Node.Barren`),
or it is reachable from a node that waits.  So when nothing waits any more,
every reachable node within the bound is barren; and when the search ends with
a candidate of the node at the front, every shorter reachable node is, since
all that waits is at least as long as the front.

Main result: `search_levels`.
-/
import Mathlib.Logic.Relation
import NaturalDeduction.Proofs.Search.Levels

namespace NaturalDeduction

namespace Node

/-! ### Reachable nodes -/

/-- A step from a node that is neither complete nor too long to one that a
candidate makes of it. -/
inductive Grows : Node → Node → Prop
  | extend {n : Node} {found : Found} {e : Extension} (hincomplete : n.isComplete = false)
      (hshort : n.lines.length ≤ n.settings.maxLines)
      (hfound : n.candidates Node.search = .ok found) (he : e ∈ found.candidates) :
      Grows n (n.extend e)

/-- A node that finitely many steps lead to. -/
def Reachable (head n : Node) : Prop :=
  Relation.ReflTransGen Grows head n

/-- A node whose candidates can be worked out and do not state the goal. -/
def Barren (n : Node) : Prop :=
  ∃ found, n.candidates Node.search = .ok found ∧
    ∀ e ∈ found.candidates, e.last.formula ≠ n.goal

theorem Reachable.length_le {head n : Node} (h : Reachable head n) :
    head.lines.length ≤ n.lines.length := by
  induction h with
  | refl => exact Nat.le_refl _
  | tail _ hgrows ih =>
    cases hgrows with
    | extend =>
      rw [Node.extend, List.length_append]
      omega

/-- Nothing but itself is reachable from a node that is too long. -/
theorem Reachable.eq_of_long {head n : Node} (h : Reachable head n)
    (hlong : head.settings.maxLines < head.lines.length) : n = head := by
  rcases Relation.ReflTransGen.cases_head h with rfl | ⟨m, hgrows, -⟩
  · rfl
  · cases hgrows with
    | extend _ hshort => omega

/-- What is reachable from a node is the node itself or reachable by way of a
candidate. -/
theorem Reachable.eq_or_extend {head n : Node} {found : Found} (h : Reachable head n)
    (hfound : head.candidates Node.search = .ok found) :
    n = head ∨ ∃ e ∈ found.candidates, Reachable (head.extend e) n := by
  rcases Relation.ReflTransGen.cases_head h with rfl | ⟨m, hgrows, hm⟩
  · exact .inl rfl
  · cases hgrows with
    | extend _ _ hfound' he =>
      obtain rfl := Except.ok.inj (hfound.symm.trans hfound')
      exact .inr ⟨_, he, hm⟩

end Node

namespace Frontier

open Node

/-! ### The invariant -/

variable {head : Node} {left left' : Nat} {f g : Frontier}

/-- What waits in a search from `head` is reachable, and all that is reachable
is barren, too long, or reachable from what waits. -/
structure Covers (head : Node) (f : Frontier) : Prop where
  unseen : f.seen = none
  reached : ∀ lines ∈ f.queue.toList, Reachable head ⟨lines, head.goal, head.settings⟩
  covered : ∀ n, Reachable head n →
    (n.lines.length ≤ head.settings.maxLines → n.Barren) ∨
      ∃ lines ∈ f.queue.toList, Reachable ⟨lines, head.goal, head.settings⟩ n

theorem covers_start (hdedupe : head.settings.dedupe.truthy = false) :
    Covers head (start head) where
  unseen := by simp [start, hdedupe]
  reached := by
    intro lines hlines
    obtain rfl : lines = head.lines := by simpa [start] using hlines
    exact .refl
  covered := fun n hn => .inr ⟨head.lines, by simp [start], hn⟩

theorem Covers.discarded {lines : List Line} (hf : Covers head f)
    (hqueue : f.queue.toList = lines :: g.queue.toList)
    (hlong : head.settings.maxLines < lines.length) (hseen : g.seen = f.seen) :
    Covers head g where
  unseen := hseen.trans hf.unseen
  reached := fun k hk => hf.reached k (by simp [hqueue, hk])
  covered := by
    intro n hn
    rcases hf.covered n hn with hbarren | ⟨k, hk, hkn⟩
    · exact .inl hbarren
    · rw [hqueue] at hk
      rcases List.mem_cons.mp hk with rfl | hk
      · -- the node that was discarded leads nowhere
        rw [hkn.eq_of_long hlong]
        exact .inl fun hshort => absurd hshort (Nat.not_le.mpr hlong)
      · exact .inr ⟨k, hk, hkn⟩

theorem Covers.expanded {lines : List Line} {rest : List (List Line)} {found : Found}
    (hf : Covers head f) (hexp : Expands head.goal head.settings f lines rest)
    (hfound : candidates Node.search ⟨lines, head.goal, head.settings⟩ = .ok found)
    (hnone : found.candidates.find? (fun e => decide (e.last.formula = head.goal)) = none)
    (hqueue : g.queue.toList = rest ++ found.candidates.map fun e => lines ++ e.lines)
    (hseen : g.seen = none) : Covers head g := by
  have hfront : lines ∈ f.queue.toList := by simp [hexp.queue]
  have hrest : ∀ k ∈ rest, k ∈ f.queue.toList := fun k hk => by simp [hexp.queue, hk]
  have hgoal : ∀ e ∈ found.candidates, e.last.formula ≠ head.goal := by
    simpa using List.find?_eq_none.mp hnone
  constructor
  · exact hseen
  · intro k hk
    rw [hqueue] at hk
    rcases List.mem_append.mp hk with hk | hk
    · exact hf.reached k (hrest k hk)
    · obtain ⟨e, he, rfl⟩ := List.mem_map.mp hk
      exact (hf.reached lines hfront).tail (.extend hexp.incomplete hexp.short hfound he)
  · intro n hn
    rcases hf.covered n hn with hbarren | ⟨k, hk, hkn⟩
    · exact .inl hbarren
    · rw [hexp.queue] at hk
      rcases List.mem_cons.mp hk with rfl | hk
      · rcases hkn.eq_or_extend hfound with rfl | ⟨e, he, hen⟩
        · exact .inl fun _ => ⟨found, hfound, hgoal⟩
        · refine .inr ⟨k ++ e.lines, ?_, hen⟩
          rw [hqueue]
          exact List.mem_append_right rest (List.mem_map_of_mem he)
      · exact .inr ⟨k, by simp [hqueue, hk], hkn⟩

theorem Covers.pass (hf : Covers head f)
    (h : Passed Node.search head.goal head.settings left f (.goesOn left' g)) : Covers head g := by
  cases h with
  | discarded hqueue _ hlong hseen => exact hf.discarded hqueue hlong hseen
  | expanded hexp hfound hnone hqueue hseen =>
    rw [hf.unseen, admitted_none] at hqueue
    rw [hf.unseen, noted_none] at hseen
    exact hf.expanded hexp hfound hnone hqueue hseen

/-! ### Where the search ends -/

/-- A run that ends with nothing left has found every reachable node barren. -/
theorem run_exhausted {why : Halt} (hf : Covers head f)
    (h : (f.run Node.search head.goal head.settings left).ending = .halted why)
    (hwhy : why ≠ .maximumIteration) :
    ∀ n, Reachable head n → n.lines.length ≤ head.settings.maxLines → n.Barren := by
  induction left, f using run_induction Node.search head.goal head.settings with
  | ends left f r hpass =>
    cases hpass with
    | exhausted hqueue _ =>
      intro n hn hshort
      rcases hf.covered n hn with hbarren | ⟨lines, hlines, -⟩
      · exact hbarren hshort
      · simp [hqueue] at hlines
    | spent _ hr =>
      obtain rfl := Ending.halted.inj (hr.symm.trans h)
      exact absurd rfl hwhy
    | complete _ _ hr | broke _ _ hr | finished _ _ _ hr =>
      rw [hr] at h
      cases h
  | goesOn left f left' g hpass ih => exact ih (hf.pass hpass) h

/-- A run that finds a proof ends with the first candidate that states the goal
at a reachable node, and every shorter reachable node is barren. -/
theorem run_found {out : List Line} (hf : Covers head f) (hlevel : f.Leveled)
    (hopen : Holds head (fun lines => head.goal ∉ formulas lines) f)
    (h : (f.run Node.search head.goal head.settings left).ending = .proved out) :
    ∃ n found e, Reachable head n ∧ n.lines.length ≤ head.settings.maxLines ∧
      n.candidates Node.search = .ok found ∧
      found.candidates.find? (fun e => decide (e.last.formula = head.goal)) = some e ∧
      out = n.lines ++ e.lines ∧
      ∀ m, Reachable head m → m.lines.length < n.lines.length → m.Barren := by
  induction left, f using run_induction Node.search head.goal head.settings with
  | ends left f r hpass =>
    cases hpass with
    | exhausted _ hr | spent _ hr | broke _ _ hr =>
      rw [hr] at h
      cases h
    | @complete _ _ _ lines _ hqueue hstates _ =>
      -- no node that waits states the goal
      have hincomplete := (hopen lines (by simp [hqueue])).2
      exact absurd (states_eq_true_iff.mp hstates) hincomplete
    | @finished _ _ _ lines rest found e hexp hfound he hr =>
      obtain rfl := Ending.proved.inj (hr.symm.trans h)
      refine ⟨⟨lines, head.goal, head.settings⟩, found, e, hf.reached lines (by simp [hexp.queue]),
        hexp.short, hfound, he, rfl, fun m hm hlt => ?_⟩
      rcases hf.covered m hm with hbarren | ⟨k, hk, hkm⟩
      · exact hbarren (Nat.le_trans (Nat.le_of_lt hlt) hexp.short)
      · -- what waits is no shorter than the front
        have hsorted := hlevel.sorted
        rw [hexp.queue] at hk hsorted
        have hle : lines.length ≤ k.length := by
          rcases List.mem_cons.mp hk with rfl | hk
          · exact Nat.le_refl _
          · exact (List.pairwise_cons.mp hsorted).1 k hk
        exact absurd (Nat.le_trans hle hkm.length_le) (Nat.not_le.mpr hlt)
  | goesOn left f left' g hpass ih =>
    exact ih (hf.pass hpass) (hlevel.pass hpass) (hopen.pass head.keeps_incomplete hpass) h

end Frontier

/-- **The search looks at every node, level by level.**  Let it keep no account
of the states seen.  If it halts with nothing left to expand, the head is
incomplete and no reachable node within the bound on lines has a candidate that
states the goal.  If it finds a proof from an incomplete head, that is a
reachable node within the bound with its first candidate that states the goal,
and no shorter reachable node has such a candidate. -/
theorem search_levels (head : Node) (hdedupe : head.settings.dedupe.truthy = false) :
    (∀ why, head.search.ending = .halted why → why = .maximumLines ∨ why = .deadEnd →
      head.isComplete = false ∧
      ∀ n, head.Reachable n → n.lines.length ≤ head.settings.maxLines → n.Barren) ∧
    (∀ out, head.search.ending = .proved out → head.isComplete = false →
      ∃ n found e, head.Reachable n ∧ n.lines.length ≤ head.settings.maxLines ∧
        n.candidates Node.search = .ok found ∧
        found.candidates.find? (fun e => decide (e.last.formula = head.goal)) = some e ∧
        out = n.lines ++ e.lines ∧
        ∀ m, head.Reachable m → m.lines.length < n.lines.length → m.Barren) := by
  have hcovers := Frontier.covers_start hdedupe
  rw [Node.search_eq, Node.searchWith]
  constructor
  · intro why hhalted hwhy
    refine ⟨?_, Frontier.run_exhausted hcovers hhalted (by rintro rfl; simp at hwhy)⟩
    rw [← Bool.not_eq_true]
    intro hcomplete
    rw [Frontier.run_of_complete rfl hcomplete] at hhalted
    cases hhalted
  · intro out hout hincomplete
    exact Frontier.run_found hcovers (Frontier.leveled_start head)
      (Frontier.holds_start (Node.states_eq_false_iff.mp hincomplete)) hout

/-- A goal at the end of a chain of two implications. -/
def chainedGoal : Node :=
  ⟨Line.ofAssumptions [.var "P", .imp (.var "P") (.var "Q"), .imp (.var "Q") (.var "R")],
    .var "R", default⟩

/-- A goal that does not follow, under a bound of two lines. -/
def unrelatedGoal : Node :=
  ⟨Line.ofAssumptions [.var "P"], .var "Q",
    { maxLines := 2, iterations := 30, subMaxLines := 1, subIterations := 1
      maxLines_pos := Nat.two_pos, subMaxLines_pos := Nat.one_pos
      subIterations_pos := Nat.one_pos }⟩

theorem search_levels_chained_unrelated :
    (∀ n, unrelatedGoal.Reachable n → n.lines.length ≤ 2 → n.Barren) ∧
    ∃ out n found e, chainedGoal.search.ending = .proved out ∧ chainedGoal.Reachable n ∧
      n.candidates Node.search = .ok found ∧
      found.candidates.find? (fun e => decide (e.last.formula = .var "R")) = some e ∧
      out = n.lines ++ e.lines ∧
      ∀ m, chainedGoal.Reachable m → m.lines.length < n.lines.length → m.Barren := by
  have hhalted : unrelatedGoal.search.status = .halted .maximumLines := by decide +kernel
  have hfinished : chainedGoal.search.status = .finished := by decide +kernel
  obtain ⟨out, hout⟩ := Run.exists_proved hfinished
  obtain ⟨-, hbarren⟩ := (search_levels unrelatedGoal rfl).1 .maximumLines
    (Run.ending_of_status hhalted) (.inl rfl)
  obtain ⟨n, found, e, hn, -, hfound, he, heq, hshorter⟩ :=
    (search_levels chainedGoal rfl).2 out hout (by decide)
  exact ⟨hbarren, out, n, found, e, hout, hn, hfound, he, heq, hshorter⟩

end NaturalDeduction
