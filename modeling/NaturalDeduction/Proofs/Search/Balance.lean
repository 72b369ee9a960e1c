/-
The counters of a search balance.

Every candidate that was found is counted once more when its child is queued or
skipped, and every node that was queued is counted once more when it is taken up
or discarded; the head was queued without being counted.  So between two passes

    candidates = queued + skipped,
    taken up + discarded + waiting = queued + 1

(`Frontier.Balanced`).  A search that halts has dealt with the children of all
nodes it took up but the last; one that finds a proof has not queued those of the
node it ends at, so there only an inequality is left of the first equation.  The
second speaks of the counters alone when nothing waits any more.

Main result: `search_counts_balance`.
-/
import NaturalDeduction.Proofs.Search.Halts

namespace NaturalDeduction

namespace Frontier

variable {search : Node → Run} {head : Node} {left left' : Nat} {f g : Frontier}

/-! ### Between two passes -/

/-- The counters balance, and without an account of states no child was
skipped. -/
structure Balanced (head : Node) (f : Frontier) : Prop where
  children : f.stats.candidates = f.stats.enqueued + f.stats.duplicates
  nodes : f.stats.iterations + f.stats.overLength + f.queue.toList.length = f.stats.enqueued + 1
  unskipped : head.settings.dedupe.truthy = false → f.seen = none ∧ f.stats.duplicates = 0

theorem balanced_start (head : Node) : Balanced head (start head) where
  children := rfl
  nodes := rfl
  unskipped := by
    intro hdedupe
    simp [start, hdedupe]

theorem Balanced.pass (hf : Balanced head f)
    (h : Passed search head.goal head.settings left f (.goesOn left' g)) : Balanced head g := by
  have hchildren := hf.children
  have hnodes := hf.nodes
  cases h with
  | discarded hqueue _ _ hseen _ hstats =>
    rw [hqueue, List.length_cons] at hnodes
    refine ⟨?_, ?_, fun hdedupe => ?_⟩
    · rw [hstats]
      exact hchildren
    · rw [hstats]
      simp only [Stats.addDiscarded]
      omega
    · rw [hseen, hstats]
      exact hf.unskipped hdedupe
  | @expanded _ _ _ lines rest found hexp _ _ hqueue hseen _ hstats =>
    have hadmitted := length_admitted_le f.seen (found.candidates.map fun e => lines ++ e.lines)
    rw [List.length_map] at hadmitted
    rw [hexp.queue, List.length_cons] at hnodes
    -- a candidate is admitted or skipped, and the admitted ones wait
    refine ⟨?_, ?_, fun hdedupe => ?_⟩
    · rw [hstats]
      simp only [Stats.addChildren, Stats.addFound, Stats.addIteration]
      omega
    · rw [hstats, hqueue, List.length_append]
      simp only [Stats.addChildren, Stats.addFound, Stats.addIteration]
      omega
    · obtain ⟨hnone, hzero⟩ := hf.unskipped hdedupe
      rw [hseen, hstats, hnone, noted_none, admitted_none, List.length_map, Nat.sub_self]
      exact ⟨rfl, hzero⟩

/-! ### At the end of a run -/

/-- What the counters of a result add up to. -/
structure Balances (head : Node) (r : Run) : Prop where
  halted : ∀ why, r.ending = .halted why →
    r.stats.candidates = r.stats.enqueued + r.stats.duplicates
  exhausted : r.ending = .halted .maximumLines ∨ r.ending = .halted .deadEnd →
    r.stats.iterations + r.stats.overLength = r.stats.enqueued + 1
  proved : ∀ out, r.ending = .proved out →
    r.stats.enqueued + r.stats.duplicates ≤ r.stats.candidates
  within : r.ending ≠ .halted .maximumIteration →
    r.stats.iterations ≤ head.settings.iterations
  unskipped : head.settings.dedupe.truthy = false → r.stats.duplicates = 0

theorem run_balances (hf : Balanced head f) (hcount : Accounted head left f)
    (hlevel : f.Leveled) : Balances head (f.run search head.goal head.settings left) := by
  induction left, f using run_induction search head.goal head.settings with
  | goesOn left f left' g hpass ih =>
    exact ih (hf.pass hpass) (hcount.pass hlevel hpass) (hlevel.pass hpass)
  | ends left f r hpass =>
    have hchildren := hf.children
    have hnodes := hf.nodes
    have hbudget := hcount.budget
    have hunskipped := fun hdedupe => (hf.unskipped hdedupe).2
    cases hpass with
    | exhausted hqueue hr hstats =>
      rw [hqueue, List.length_nil, Nat.add_zero] at hnodes
      rw [← hstats] at hchildren hnodes hbudget hunskipped
      exact ⟨fun _ _ => hchildren, fun _ => hnodes, fun _ _ => hchildren.ge,
        fun _ => by omega, hunskipped⟩
    | complete _ _ hr hstats =>
      rw [← hstats] at hchildren hbudget hunskipped
      exact ⟨fun _ _ => hchildren, by simp [hr], fun _ _ => hchildren.ge,
        fun _ => by omega, hunskipped⟩
    | spent _ hr hstats =>
      refine ⟨fun _ _ => ?_, by simp [hr], by simp [hr], by simp [hr], ?_⟩
      · rw [hstats]
        exact hchildren
      · rw [hstats]
        exact hunskipped
    | broke _ _ hr hstats =>
      refine ⟨by simp [hr], by simp [hr], by simp [hr], fun _ => ?_, ?_⟩
      · rw [hstats]
        show f.stats.iterations + 1 ≤ head.settings.iterations
        omega
      · rw [hstats]
        exact hunskipped
    | @finished _ _ _ _ _ found _ _ _ _ hr hstats =>
      -- the candidates of the last node are counted, and none of them is queued
      refine ⟨by simp [hr], by simp [hr], fun _ _ => ?_, fun _ => ?_, ?_⟩
      · rw [hstats]
        show f.stats.enqueued + f.stats.duplicates
          ≤ f.stats.candidates + found.candidates.length
        omega
      · rw [hstats]
        show f.stats.iterations + 1 ≤ head.settings.iterations
        omega
      · rw [hstats]
        exact hunskipped

end Frontier

/-! ### Searches -/

theorem Node.search_balances (head : Node) : Frontier.Balances head head.search := by
  rw [search_eq, searchWith]
  exact Frontier.run_balances (Frontier.balanced_start head) (Frontier.accounted_start head)
    (Frontier.leveled_start head)

/-- **The counters of a search balance.**  If it halts, its candidates are the
children that it queued or skipped.  If it halts because nothing is left within
the bound on lines, it has taken up or discarded the head and every child queued,
and kept to its budget; if it halts with its budget spent, it has discarded
nothing.  If it finds a proof, it has discarded nothing, kept to its budget, and
queued and skipped no more children than it found candidates.  Without an account
of states it skips nothing. -/
theorem search_counts_balance (head : Node) :
    (∀ why, head.search.status = .halted why →
      head.search.stats.candidates
        = head.search.stats.enqueued + head.search.stats.duplicates) ∧
    (head.search.status = .halted .maximumLines ∨ head.search.status = .halted .deadEnd →
      head.search.stats.iterations + head.search.stats.overLength
        = head.search.stats.enqueued + 1 ∧
      head.search.stats.iterations ≤ head.settings.iterations) ∧
    (head.search.status = .halted .maximumIteration → head.search.stats.overLength = 0) ∧
    (head.search.status = .finished →
      head.search.stats.overLength = 0 ∧
      head.search.stats.iterations ≤ head.settings.iterations ∧
      head.search.stats.enqueued + head.search.stats.duplicates
        ≤ head.search.stats.candidates) ∧
    (head.settings.dedupe.truthy = false → head.search.stats.duplicates = 0) := by
  have hbalances := head.search_balances
  -- only a search that halts at the bound on lines has discarded a node
  have hkept : head.search.ending ≠ .halted .maximumLines →
      head.search.stats.overLength = 0 := by
    intro hne
    have hlines := head.search_tells.maximumLines
    by_contra hpos
    exact hne (hlines.mpr (Nat.pos_of_ne_zero hpos))
  simp only [Run.status_eq_halted_iff, Run.status_eq_finished_iff]
  refine ⟨hbalances.halted, fun hend => ⟨hbalances.exhausted hend, ?_⟩, fun hend => ?_, ?_,
    hbalances.unskipped⟩
  · apply hbalances.within
    rcases hend with hend | hend <;> simp [hend]
  · exact hkept (by simp [hend])
  · rintro ⟨out, hend⟩
    exact ⟨hkept (by simp [hend]), hbalances.within (by simp [hend]), hbalances.proved out hend⟩

/-- A search that skips children and one that runs out of its budget. -/
theorem search_counts_balance_hopeless :
    0 < (hopelessGoal [.var "P"] 30).search.stats.duplicates ∧
    (hopelessGoal [.var "P"] 30).search.stats.candidates
      = (hopelessGoal [.var "P"] 30).search.stats.enqueued
        + (hopelessGoal [.var "P"] 30).search.stats.duplicates ∧
    (hopelessGoal [.var "P"] 30).search.stats.iterations
        + (hopelessGoal [.var "P"] 30).search.stats.overLength
      = (hopelessGoal [.var "P"] 30).search.stats.enqueued + 1 ∧
    (hopelessGoal [.var "P"] 1).search.stats.overLength = 0 := by
  have hlines : (hopelessGoal [.var "P"] 30).search.status = .halted .maximumLines := by
    decide +kernel
  have hspent : (hopelessGoal [.var "P"] 1).search.status = .halted .maximumIteration := by
    decide +kernel
  obtain ⟨hchildren, hnodes, -⟩ := search_counts_balance (hopelessGoal [.var "P"] 30)
  obtain ⟨-, -, hkept, -⟩ := search_counts_balance (hopelessGoal [.var "P"] 1)
  exact ⟨by decide +kernel, hchildren _ hlines, (hnodes (.inl hlines)).1, hkept hspent⟩

end NaturalDeduction
