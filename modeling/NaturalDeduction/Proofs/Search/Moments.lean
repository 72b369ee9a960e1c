/-
The queue at every moment of a search.

A pass takes one node from the queue and may put many children into it.  Here
passes are cut further, into steps that touch the queue once: a node is taken, or
one child is queued or skipped (`Moment.step`).  The moments of a search from
`head` are those that steps lead to from its start (`Node.moment?`).  The last of
them holds its result (`exists_moment?_ended`), so a search has no other moments.

At every moment a pass is under way, or about to begin, that started from a
frontier whose nodes wait by length and are as they should be.  Until it ends, the
queue is what stood behind the front of that frontier, and behind it some of the
children of the front (`Moment.Underway`).  These have one line more than the front,
so the order holds at every moment if it holds between two passes.

Main result: `search_queue_invariant`.
-/
import Mathlib.Computability.StateTransition
import NaturalDeduction.Proofs.Search.Halts

namespace NaturalDeduction

open StateTransition

/-! ### Steps -/

/-- A moment of a search. -/
inductive Moment where
  /-- A node is about to be taken, and `left` more may be expanded. -/
  | waiting (left : Nat) (f : Frontier)
  /-- A node has been taken from the queue. -/
  | taken (left : Nat) (lines : List Line) (f : Frontier)
  /-- Of the candidates of the node that was taken, `todo` are still to be made
  children. -/
  | queueing (left : Nat) (lines : List Line) (todo : List Extension) (f : Frontier)
  | ended (r : Run)

namespace Moment

/-- The nodes that wait, from front to back. -/
def queue : Moment → List (List Line)
  | waiting _ f | taken _ _ f | queueing _ _ _ f => f.queue.toList
  | ended _ => []

section Steps

variable (search : Node → Run) (goal : Formula) (settings : Settings)

/-- What comes after a moment. -/
def step : Moment → Option Moment
  | waiting left f =>
    match f.queue.pop? with
    | none =>
      some (ended (f.halt (if settings.maxLines < f.lastLength then .maximumLines else .deadEnd)))
    | some (lines, queue) => some (taken left lines { f with queue, lastLength := lines.length })
  | taken left lines f =>
    if Line.states lines goal then some (ended (f.finish lines))
    else if settings.maxLines < lines.length then
      some (waiting left { f with stats := { f.stats with overLength := f.stats.overLength + 1 } })
    else
      let f := f.countIteration
      match left with
      | 0 => some (ended (f.halt .maximumIteration))
      | left + 1 =>
        match Node.candidates search ⟨lines, goal, settings⟩ with
        | .error fault => some (ended (f.breakOff fault))
        | .ok found =>
          let f := f.countFound found
          match found.candidates.find? fun e => e.last.formula = goal with
          | some e => some (ended (f.finish (lines ++ e.lines)))
          | none => some (queueing left lines found.candidates f)
  | queueing left lines (e :: todo) f =>
    some (queueing left lines todo (f.enqueue (lines ++ e.lines)))
  | queueing left _ [] f => some (waiting left f)
  | ended _ => none

/-! ### Steps make up the run -/

/-- The moment at which a pass is over. -/
def ofPass : Frontier.Pass → Moment
  | .ends r => ended r
  | .goesOn left f => waiting left f

theorem reaches_of_queueing (left : Nat) (lines : List Line) (todo : List Extension)
    (f : Frontier) :
    Reaches (step search goal settings) (queueing left lines todo f)
      (waiting left (todo.foldl (fun f e => f.enqueue (lines ++ e.lines)) f)) := by
  induction todo generalizing f with
  | nil => exact .single rfl
  | cons e todo ih => exact .head rfl (ih (f.enqueue (lines ++ e.lines)))

/-- Steps lead from the beginning of a pass to its end. -/
theorem reaches_ofPass (left : Nat) (f : Frontier) :
    Reaches (step search goal settings) (waiting left f)
      (ofPass (f.pass search goal settings left)) := by
  rw [Frontier.pass]
  rcases hpop : f.queue.pop? with - | ⟨lines, queue⟩
  · exact .single (by rw [step, hpop]; rfl)
  · let front : Frontier := { f with queue, lastLength := lines.length }
    have htake : step search goal settings (waiting left f) = some (taken left lines front) := by
      rw [step, hpop]
    refine .head htake ?_
    by_cases hstates : Line.states lines goal
    · simp only [hstates, if_true]
      exact .single (by rw [step, if_pos hstates]; rfl)
    · by_cases hlong : settings.maxLines < lines.length
      · simp only [hstates, hlong, if_true, if_false, Bool.false_eq_true]
        exact .single (by rw [step, if_neg hstates, if_pos hlong]; rfl)
      · simp only [hstates, hlong, if_false, Bool.false_eq_true]
        rcases left with - | left
        · exact .single (by rw [step, if_neg hstates, if_neg hlong]; rfl)
        · simp only
          rcases hfound : Node.candidates search ⟨lines, goal, settings⟩ with fault | found
          · exact .single (by rw [step, if_neg hstates, if_neg hlong]; simp only [hfound]; rfl)
          · simp only
            split
            · next e he =>
              exact .single (by
                rw [step, if_neg hstates, if_neg hlong]; simp only [hfound, he]; rfl)
            · next hnone =>
              refine .head (b := queueing left lines found.candidates
                (front.countIteration.countFound found)) ?_ (reaches_of_queueing ..)
              rw [step, if_neg hstates, if_neg hlong]
              simp only [hfound, hnone]
              rfl

/-- Steps lead from a frontier to the result of the run from it. -/
theorem reaches_ended (left : Nat) (f : Frontier) :
    Reaches (step search goal settings) (waiting left f)
      (ended (f.run search goal settings left)) := by
  induction left, f using Frontier.run_pass_induction search goal settings with
  | ends left f r h =>
    have hpass := reaches_ofPass search goal settings left f
    rwa [h] at hpass
  | goesOn left f left' g h ih =>
    have hpass := reaches_ofPass search goal settings left f
    rw [h] at hpass
    exact hpass.trans ih

end Steps

end Moment

namespace Node

/-- The moment of a search after a number of steps, if it lasts that long. -/
def moment? (head : Node) : Nat → Option Moment
  | 0 => some (.waiting head.settings.iterations (.start head))
  | k + 1 => (head.moment? k).bind (Moment.step Node.search head.goal head.settings)

theorem exists_moment?_of_reaches {head : Node} {p q : Moment} {k : Nat}
    (hp : head.moment? k = some p)
    (h : Reaches (Moment.step Node.search head.goal head.settings) p q) :
    ∃ k, head.moment? k = some q := by
  induction h with
  | refl => exact ⟨k, hp⟩
  | tail _ hstep ih =>
    obtain ⟨j, hj⟩ := ih
    exact ⟨j + 1, by rw [moment?, hj]; exact hstep⟩

/-- The steps of a search lead to its result. -/
theorem exists_moment?_ended (head : Node) :
    ∃ k, head.moment? k = some (.ended head.search) := by
  rw [search_eq]
  exact exists_moment?_of_reaches (k := 0) rfl (Moment.reaches_ended _ _ _ _ _)

end Node

/-! ### What steps keep -/

namespace Frontier

open Node

variable {search : Node → Run} {head : Node} {P : List Line → Prop} {f g : Frontier}
  {lines : List Line} {rest children : List (List Line)}

/-- The nodes wait by length, extend `head` and have `P`. -/
structure Orderly (head : Node) (P : List Line → Prop) (f : Frontier) : Prop where
  leveled : f.Leveled
  holds : Holds head P f

theorem Orderly.taken (hf : Orderly head P f) (hqueue : f.queue.toList = lines :: g.queue.toList)
    (hlast : g.lastLength = lines.length) : Orderly head P g where
  leveled := leveled_of_children hf.leveled hqueue (by simp) (List.append_nil _).symm hlast
  holds := fun k hk => hf.holds k (by simp [hqueue, hk])

/-- Whichever children of the front stand behind the rest, the nodes wait in
order. -/
theorem Orderly.queued {found : Found} (hkeeps : head.Keeps P) (hf : Orderly head P f)
    (hexp : Expands head.goal head.settings f lines rest)
    (hfound : candidates search ⟨lines, head.goal, head.settings⟩ = .ok found)
    (hnone : found.candidates.find? (fun e => decide (e.last.formula = head.goal)) = none)
    (hchildren : children ⊆ found.candidates.map fun e => lines ++ e.lines)
    (hqueue : g.queue.toList = rest ++ children) (hlast : g.lastLength = lines.length) :
    Orderly head P g where
  leveled :=
    leveled_of_children hf.leveled hexp.queue
      (fun _ hchild => length_of_mem_children hfound hnone (hchildren hchild)) hqueue hlast
  holds := by
    intro k hk
    rw [hqueue] at hk
    rcases List.mem_append.mp hk with hk | hk
    · exact hf.holds k (by simp [hexp.queue, hk])
    · exact hf.holds.child hkeeps hexp hfound hnone (hchildren hk)

/-- A child is put at the back of the queue if it is admitted. -/
theorem enqueue_queue (f : Frontier) (child : List Line) :
    (f.enqueue child).queue.toList = f.queue.toList ++ admitted f.seen [child] ∧
      (f.enqueue child).lastLength = f.lastLength := by
  rcases hf : f.seen with - | seen
  · simp [enqueue, hf]
  · by_cases hmem : seen.contains (formulas child)
    · simp [enqueue, hf, admitted, hmem]
    · simp [enqueue, hf, admitted, hmem]

end Frontier

namespace Moment

open Node Frontier

variable {search : Node → Run} {head : Node} {P : List Line → Prop} {p q : Moment}

/-- A pass that began in order is under way: `f` is the frontier it began with. -/
inductive Underway (search : Node → Run) (head : Node) (P : List Line → Prop) : Moment → Prop
  | waiting {left : Nat} {f : Frontier} (hf : Orderly head P f) :
      Underway search head P (.waiting left f)
  | taken {left : Nat} {lines : List Line} {f g : Frontier} (hf : Orderly head P f)
      (hqueue : f.queue.toList = lines :: g.queue.toList) (hlast : g.lastLength = lines.length) :
      Underway search head P (.taken left lines g)
  | queueing {left : Nat} {lines : List Line} {rest children : List (List Line)} {f g : Frontier}
      {found : Found} {todo : List Extension} (hf : Orderly head P f)
      (hexp : Expands head.goal head.settings f lines rest)
      (hfound : candidates search ⟨lines, head.goal, head.settings⟩ = .ok found)
      (hnone : found.candidates.find? (fun e => decide (e.last.formula = head.goal)) = none)
      (htodo : todo ⊆ found.candidates)
      (hchildren : children ⊆ found.candidates.map fun e => lines ++ e.lines)
      (hqueue : g.queue.toList = rest ++ children) (hlast : g.lastLength = lines.length) :
      Underway search head P (.queueing left lines todo g)
  | ended {r : Run} : Underway search head P (.ended r)

/-- What a step can lead to from a node that was taken. -/
theorem step_taken {left : Nat} {lines : List Line} {f : Frontier}
    (h : step search head.goal head.settings (.taken left lines f) = some q) :
    (∃ r, q = .ended r) ∨
      (∃ g, q = .waiting left g ∧ g.queue = f.queue ∧ g.lastLength = f.lastLength) ∨
      ∃ left' found g, q = .queueing left' lines found.candidates g ∧
        g.queue = f.queue ∧ g.lastLength = f.lastLength ∧
        Line.states lines head.goal = false ∧ lines.length ≤ head.settings.maxLines ∧
        candidates search ⟨lines, head.goal, head.settings⟩ = .ok found ∧
        found.candidates.find? (fun e => decide (e.last.formula = head.goal)) = none := by
  rw [step] at h
  split at h
  · exact .inl ⟨_, (Option.some.inj h).symm⟩
  · next hstates =>
    split at h
    · exact .inr (.inl ⟨_, (Option.some.inj h).symm, rfl, rfl⟩)
    · next hshort =>
      rcases left with - | left
      · exact .inl ⟨_, (Option.some.inj h).symm⟩
      · simp only at h
        rcases hfound : candidates search ⟨lines, head.goal, head.settings⟩ with fault | found
        · rw [hfound] at h
          exact .inl ⟨_, (Option.some.inj h).symm⟩
        · rw [hfound] at h
          simp only at h
          split at h
          · exact .inl ⟨_, (Option.some.inj h).symm⟩
          · next hnone =>
            exact .inr (.inr ⟨left, found, _, (Option.some.inj h).symm, rfl, rfl,
              by simpa using hstates, Nat.le_of_not_lt hshort, rfl, hnone⟩)

theorem Underway.step (hkeeps : head.Keeps P) (hp : Underway search head P p)
    (h : p.step search head.goal head.settings = some q) : Underway search head P q := by
  cases hp with
  | @waiting left f hf =>
    rw [Moment.step] at h
    split at h
    · obtain rfl := Option.some.inj h
      exact .ended
    · next hpop =>
      obtain rfl := Option.some.inj h
      exact .taken hf (Queue.toList_eq_of_pop? hpop) rfl
  | @taken left lines f g hf hqueue hlast =>
    rcases step_taken h with ⟨r, rfl⟩ | ⟨g', rfl, hg', hlast'⟩ |
      ⟨left', found, g', rfl, hg', hlast', hstates, hshort, hfound, hnone⟩
    · exact .ended
    · exact .waiting (hf.taken (hg' ▸ hqueue) (hlast'.trans hlast))
    · exact .queueing hf ⟨hqueue, hstates, hshort⟩ hfound hnone (List.Subset.refl _)
        (List.nil_subset _) (by rw [hg', List.append_nil]) (hlast'.trans hlast)
  | @queueing left lines rest children f g found todo hf hexp hfound hnone htodo hchildren hqueue
      hlast =>
    rcases todo with - | ⟨e, todo⟩
    · obtain rfl := Option.some.inj h
      exact .waiting (hf.queued hkeeps hexp hfound hnone hchildren hqueue hlast)
    · obtain rfl := Option.some.inj h
      obtain ⟨hqueue', hlast'⟩ := g.enqueue_queue (lines ++ e.lines)
      obtain ⟨he, htodo⟩ := List.cons_subset.mp htodo
      have hadmitted : admitted g.seen [lines ++ e.lines]
          ⊆ found.candidates.map fun e => lines ++ e.lines := by
        intro child hchild
        obtain rfl := List.mem_singleton.mp (mem_of_mem_admitted hchild)
        exact List.mem_map_of_mem he
      rw [hqueue, List.append_assoc] at hqueue'
      exact .queueing hf hexp hfound hnone htodo (List.append_subset.mpr ⟨hchildren, hadmitted⟩)
        hqueue' (hlast'.trans hlast)
  | ended => cases h

/-- At every moment of a pass the nodes wait in order. -/
theorem Underway.exists_orderly (hkeeps : head.Keeps P) (hp : Underway search head P p) :
    p.queue = [] ∨ ∃ f, Orderly head P f ∧ p.queue = f.queue.toList := by
  cases hp with
  | @waiting left f hf => exact .inr ⟨f, hf, rfl⟩
  | @taken left lines f g hf hqueue hlast => exact .inr ⟨g, hf.taken hqueue hlast, rfl⟩
  | @queueing left lines rest children f g found todo hf hexp hfound hnone _ hchildren hqueue
      hlast =>
    exact .inr ⟨g, hf.queued hkeeps hexp hfound hnone hchildren hqueue hlast, rfl⟩
  | ended => exact .inl rfl

end Moment

/-! ### Searches -/

namespace Node

/-- Lines that the rules for single lines may add to `head` one by one, each with a
formula of its own that is on no line of the head. -/
structure Adds (head : Node) (added : List Line) : Prop where
  rules : ∀ l ∈ added, l.rule ∈ [Rule.modusPonens, .modusTollens, .conjElim, .conjIntro,
    .disjIntro, .doubleNegation]
  distinct : (formulas added).Nodup
  fresh : ∀ f ∈ formulas added, f ∉ formulas head.lines

theorem Adds.snoc {head : Node} {added : List Line} {l : Line} (h : head.Adds added)
    (hl : IsStep (head.lines ++ added) head.goal l)
    (hnew : l.formula ∉ formulas (head.lines ++ added)) : head.Adds (added ++ [l]) := by
  rw [formulas_append, List.mem_append, not_or] at hnew
  constructor
  · intro k hk
    rcases List.mem_append.mp hk with hk | hk
    · exact h.rules k hk
    · obtain rfl := List.mem_singleton.mp hk
      exact hl.rule_mem
  · rw [formulas_append]
    exact h.distinct.append (List.nodup_singleton _) (by simpa [formulas] using hnew.2)
  · intro f hf
    rw [formulas_append, List.mem_append] at hf
    rcases hf with hf | hf
    · exact h.fresh f hf
    · obtain rfl := List.mem_singleton.mp hf
      exact hnew.1

/-- A node that a search from `head` puts into its queue. -/
structure Queued (head : Node) (lines : List Line) : Prop where
  incomplete : isComplete { head with lines } = false
  extends_head : ∃ added, lines = head.lines ++ added ∧ head.Adds added

theorem keeps_queued (head : Node) :
    head.Keeps fun lines => lines = head.lines ∨ head.Queued lines := by
  intro lines l hlines h hl hnew hgoal
  obtain ⟨added, rfl, hadded⟩ : ∃ added, lines = head.lines ++ added ∧ head.Adds added := by
    rcases h with rfl | h
    · exact ⟨[], (List.append_nil _).symm, by simp, List.nodup_nil, by simp [formulas]⟩
    · exact h.extends_head
  have hincomplete := head.keeps_incomplete _ l hlines hlines.incomplete hl hnew hgoal
  exact .inr ⟨states_eq_false_iff.mpr hincomplete, added ++ [l], List.append_assoc _ _ _,
    hadded.snoc hl hnew⟩

/-- Every moment of a search is one of a pass that began in order. -/
theorem underway_moment? {head : Node} {P : List Line → Prop} (hkeeps : head.Keeps P)
    (hhead : P head.lines) {k : Nat} {p : Moment} (h : head.moment? k = some p) :
    p.Underway Node.search head P := by
  induction k generalizing p with
  | zero =>
    obtain rfl := Option.some.inj h
    exact .waiting ⟨Frontier.leveled_start head, Frontier.holds_start hhead⟩
  | succ k ih =>
    obtain ⟨q, hq, hstep⟩ := Option.bind_eq_some_iff.mp h
    exact (ih hq).step hkeeps hstep

end Node

/-- **The queue at every moment of a search.**  The steps of a search lead to its
result.  On the way, the nodes that wait are in the order of their lengths, which
differ by at most one; and each of them but the head does not state the goal, and
adds lines to the head by the rules for single lines, with formulas that differ
from each other and from those of the head. -/
theorem search_queue_invariant (head : Node) :
    (∃ k, head.moment? k = some (.ended head.search)) ∧
    ∀ k p, head.moment? k = some p →
      p.queue.Pairwise (fun a b => a.length ≤ b.length) ∧
      (∀ a ∈ p.queue, ∀ b ∈ p.queue, b.length ≤ a.length + 1) ∧
      ∀ lines ∈ p.queue, lines ≠ head.lines → head.Queued lines := by
  refine ⟨head.exists_moment?_ended, fun k p hp => ?_⟩
  have hunderway := Node.underway_moment? head.keeps_queued (.inl rfl) hp
  rcases hunderway.exists_orderly head.keeps_queued with hqueue | ⟨f, hf, hqueue⟩
  · simp [hqueue]
  · rw [hqueue]
    refine ⟨hf.leveled.sorted, hf.leveled.within, fun lines hl hne => ?_⟩
    exact (hf.holds lines hl).2.resolve_left hne

/-- In the middle of the second pass nodes of two lengths wait. -/
theorem search_queue_invariant_hopeless :
    ∃ p, (hopelessGoal [.var "P"] 30).moment? 14 = some p ∧
      p.queue.map List.length = [2, 2, 2, 2, 3, 3, 3] ∧
      p.queue.Pairwise (fun a b => a.length ≤ b.length) ∧
      ∀ lines ∈ p.queue, (hopelessGoal [.var "P"] 30).Queued lines := by
  have hlengths : ((hopelessGoal [.var "P"] 30).moment? 14).map (·.queue.map List.length)
      = some [2, 2, 2, 2, 3, 3, 3] := by
    decide +kernel
  obtain ⟨p, hp, hqueue⟩ := Option.map_eq_some_iff.mp hlengths
  obtain ⟨hsorted, -, hqueued⟩ := (search_queue_invariant (hopelessGoal [.var "P"] 30)).2 14 p hp
  refine ⟨p, hp, hqueue, hsorted, fun lines hl => hqueued lines hl ?_⟩
  -- the head has one line
  rintro rfl
  have hmem := List.mem_map_of_mem hl (f := List.length)
  rw [hqueue] at hmem
  revert hmem
  decide

end NaturalDeduction
