/-
Passes of the search.

`Frontier.run` takes several nodes at once from the queue: it discards those
that are too long until it meets one it can work on.  Here the same loop is
cut into passes that take one node each (`Frontier.pass`, `run_eq_pass`).  A
pass either ends the search or goes on with a smaller budget, or with the same
budget and a shorter queue; so what a pass keeps, a run keeps
(`run_induction`).

What a pass can do is said once, by `Frontier.Passed`: what becomes of the
waiting nodes in their order, of the states seen and of the length of the node
taken last, how the search ends, and what is counted.  Only the trace is left
out.  The counters come last in every case, since most proofs have no use for
them.

`admitted seen children` are those children that are queued, and
`noted seen children` is what has been seen afterwards.

A pass counts in four ways: a node that is too long adds one discarded node, a
node that is taken up adds one expansion, the candidates found for it are added
with the nested searches run for them, and each of its children is added as
queued or as skipped.
-/
import NaturalDeduction.Search.Basic

namespace NaturalDeduction

theorem Queue.exists_pop? {α : Type} {q : Queue α} {a : α} {l : List α} (h : q.toList = a :: l) :
    ∃ q', q.pop? = some (a, q') ∧ q'.toList = l := by
  rcases hpop : q.pop? with - | ⟨b, q'⟩
  · rw [Queue.pop?_eq_none_iff.mp hpop] at h
    cases h
  · rw [Queue.toList_eq_of_pop? hpop] at h
    obtain ⟨rfl, rfl⟩ := List.cons.inj h
    exact ⟨q', rfl, rfl⟩

/-! ### Ways to count -/

namespace Stats

/-- One more node was discarded. -/
def addDiscarded (s : Stats) : Stats :=
  { s with overLength := s.overLength + 1 }

/-- One more node was taken up for expansion. -/
def addIteration (s : Stats) : Stats :=
  { s with iterations := s.iterations + 1 }

/-- Candidates were found for a node, or it turned out to have none. -/
def addFound (s : Stats) (found : Found) : Stats :=
  { s with
    candidates := s.candidates + found.candidates.length
    subSearches := s.subSearches + found.subSearches
    deadEnds := s.deadEnds + if found.candidates.isEmpty then 1 else 0 }

/-- Of the children of a node some were queued and the others skipped. -/
def addChildren (s : Stats) (queued skipped : Nat) : Stats :=
  { s with enqueued := s.enqueued + queued, duplicates := s.duplicates + skipped }

theorem addChildren_addChildren (s : Stats) (a b c d : Nat) :
    (s.addChildren a b).addChildren c d = s.addChildren (a + c) (b + d) := by
  simp only [addChildren, Nat.add_assoc]

end Stats

namespace Frontier

/-! ### Queueing children -/

/-- The children that are put into the queue when `seen` was seen before. -/
def admitted : Option Seen → List (List Line) → List (List Line)
  | _, [] => []
  | none, child :: rest => child :: admitted none rest
  | some seen, child :: rest =>
    if seen.contains (Node.formulas child) then admitted (some seen) rest
    else child :: admitted (some (seen.insert (Node.formulas child))) rest

/-- What has been seen once the children were looked at. -/
def noted : Option Seen → List (List Line) → Option Seen
  | seen, [] => seen
  | none, _ :: _ => none
  | some seen, child :: rest =>
    if seen.contains (Node.formulas child) then noted (some seen) rest
    else noted (some (seen.insert (Node.formulas child))) rest

@[simp] theorem admitted_none (children : List (List Line)) :
    admitted none children = children := by
  induction children with
  | nil => rfl
  | cons child rest ih => rw [admitted, ih]

@[simp] theorem noted_none (children : List (List Line)) : noted none children = none := by
  cases children <;> rfl

theorem mem_of_mem_admitted {seen : Option Seen} {children : List (List Line)}
    {lines : List Line} (h : lines ∈ admitted seen children) : lines ∈ children := by
  induction children generalizing seen with
  | nil => simp [admitted] at h
  | cons child rest ih =>
    rcases seen with - | seen
    · simpa using h
    · rw [admitted] at h
      split at h
      · exact List.mem_cons_of_mem child (ih h)
      · rcases List.mem_cons.mp h with rfl | h
        · exact List.mem_cons_self
        · exact List.mem_cons_of_mem child (ih h)

/-- Queueing children one after another: the admitted ones stand at the back
of the queue, and nothing but the counters changes otherwise. -/
theorem foldl_enqueue (f : Frontier) (lines : List Line) (es : List Extension) :
    let children := es.map fun e => lines ++ e.lines
    let g := es.foldl (fun f e => f.enqueue (lines ++ e.lines)) f
    g.queue.toList = f.queue.toList ++ admitted f.seen children ∧
      g.seen = noted f.seen children ∧ g.lastLength = f.lastLength := by
  induction es generalizing f with
  | nil => simp [admitted, noted]
  | cons e es ih =>
    simp only [List.foldl_cons, List.map_cons]
    obtain ⟨hqueue, hseen, hlast⟩ := ih (f.enqueue (lines ++ e.lines))
    rw [hqueue, hseen, hlast]
    generalize lines ++ e.lines = child
    rcases hf : f.seen with - | seen
    · simp [enqueue, hf, admitted]
    · by_cases hmem : seen.contains (Node.formulas child)
      · simp [enqueue, hf, admitted, noted, hmem]
      · simp [enqueue, hf, admitted, noted, hmem]

/-! ### Counting children -/

theorem admitted_cons (seen : Option Seen) (child : List Line) (rest : List (List Line)) :
    admitted seen (child :: rest)
      = admitted seen [child] ++ admitted (noted seen [child]) rest := by
  rcases seen with - | seen
  · simp
  · by_cases hmem : seen.contains (Node.formulas child)
    · simp [admitted, noted, hmem]
    · simp [admitted, noted, hmem]

theorem length_admitted_le (seen : Option Seen) (children : List (List Line)) :
    (admitted seen children).length ≤ children.length := by
  induction children generalizing seen with
  | nil => simp [admitted]
  | cons child rest ih =>
    rcases seen with - | seen
    · simp
    · rw [admitted]
      split
      · exact Nat.le_succ_of_le (ih (some seen))
      · exact Nat.succ_le_succ (ih (some (seen.insert (Node.formulas child))))

/-- A child is counted as queued if it is admitted and else as skipped. -/
theorem enqueue_stats (f : Frontier) (child : List Line) :
    (f.enqueue child).seen = noted f.seen [child] ∧
    (f.enqueue child).stats
      = f.stats.addChildren (admitted f.seen [child]).length
          (1 - (admitted f.seen [child]).length) := by
  rcases hf : f.seen with - | seen
  · simp [enqueue, hf, Stats.addChildren]
  · by_cases hmem : seen.contains (Node.formulas child)
    · simp [enqueue, hf, admitted, noted, hmem, Stats.addChildren]
    · simp [enqueue, hf, admitted, noted, hmem, Stats.addChildren]

theorem foldl_enqueue_stats (f : Frontier) (lines : List Line) (es : List Extension) :
    (es.foldl (fun f e => f.enqueue (lines ++ e.lines)) f).stats
      = f.stats.addChildren (admitted f.seen (es.map fun e => lines ++ e.lines)).length
          (es.length - (admitted f.seen (es.map fun e => lines ++ e.lines)).length) := by
  induction es generalizing f with
  | nil => rfl
  | cons e es ih =>
    rw [List.foldl_cons, List.map_cons, List.length_cons, admitted_cons, List.length_append, ih]
    obtain ⟨hseen, hstats⟩ := f.enqueue_stats (lines ++ e.lines)
    rw [hseen, hstats, Stats.addChildren_addChildren]
    -- the skipped ones add up, since no more are admitted than there are
    have hfirst := length_admitted_le f.seen [lines ++ e.lines]
    have hrest := length_admitted_le (noted f.seen [lines ++ e.lines])
      (es.map fun e => lines ++ e.lines)
    rw [List.length_singleton] at hfirst
    rw [List.length_map] at hrest
    congr 1
    omega

/-! ### One pass -/

/-- What a pass comes to. -/
inductive Pass where
  /-- The search ends. -/
  | ends (r : Run)
  /-- The search goes on, with `left` more expansions. -/
  | goesOn (left : Nat) (f : Frontier)

variable (search : Node → Run) (goal : Formula) (settings : Settings)

/-- One pass: the node at the front of the queue is taken and dealt with. -/
def pass (left : Nat) (f : Frontier) : Pass :=
  match f.queue.pop? with
  | none =>
    .ends (f.halt (if settings.maxLines < f.lastLength then .maximumLines else .deadEnd))
  | some (lines, queue) =>
    let f := { f with queue, lastLength := lines.length }
    if Line.states lines goal then .ends (f.finish lines)
    else if settings.maxLines < lines.length then
      .goesOn left { f with stats := { f.stats with overLength := f.stats.overLength + 1 } }
    else
      let f := f.countIteration
      match left with
      | 0 => .ends (f.halt .maximumIteration)
      | left + 1 =>
        match Node.candidates search ⟨lines, goal, settings⟩ with
        | .error fault => .ends (f.breakOff fault)
        | .ok found =>
          let f := f.countFound found
          match found.candidates.find? fun e => e.last.formula = goal with
          | some e => .ends (f.finish (lines ++ e.lines))
          | none =>
            .goesOn left (found.candidates.foldl (fun f e => f.enqueue (lines ++ e.lines)) f)

theorem next_of_pop?_none {maxLines : Nat} {f : Frontier} (h : f.queue.pop? = none) :
    f.next goal maxLines = .nothing f := by
  rw [next]
  split
  · rfl
  · next heq => rw [h] at heq; cases heq

theorem next_of_pop?_some {maxLines : Nat} {f : Frontier} {lines : List Line}
    {queue : Queue (List Line)} (h : f.queue.pop? = some (lines, queue)) :
    f.next goal maxLines
      = if Line.states lines goal then
          .complete lines { f with queue, lastLength := lines.length }
        else if maxLines < lines.length then
          next goal maxLines
            { f with
              queue, lastLength := lines.length
              stats := { f.stats with overLength := f.stats.overLength + 1 } }
        else .expand lines { f with queue, lastLength := lines.length } := by
  rw [next]
  split
  · next heq => rw [h] at heq; cases heq
  · next heq =>
    rw [h] at heq
    cases heq
    rfl

/-- A run is a pass and then, unless it ended the search, a run. -/
theorem run_eq_pass (left : Nat) (f : Frontier) :
    f.run search goal settings left
      = match f.pass search goal settings left with
        | .ends r => r
        | .goesOn left f => f.run search goal settings left := by
  rcases hpop : f.queue.pop? with - | ⟨lines, queue⟩
  · rw [run, next_of_pop?_none goal hpop, pass, hpop]
  · rw [run, next_of_pop?_some goal hpop, pass, hpop]
    by_cases hstates : Line.states lines goal
    · simp only [hstates, if_true]
    · by_cases hlong : settings.maxLines < lines.length
      · simp only [hstates, hlong, if_true, if_false, Bool.false_eq_true]
        conv => rhs; rw [run]
      · simp only [hstates, hlong, if_false, Bool.false_eq_true]
        rcases left with - | left
        · rfl
        · simp only
          rcases Node.candidates search ⟨lines, goal, settings⟩ with fault | found
          · rfl
          · simp only
            generalize found.candidates.find? _ = first
            rcases first with - | e
            · rfl
            · rfl

/-! ### What a pass can do -/

/-- The node at the front of the queue is to be expanded. -/
structure Expands (f : Frontier) (lines : List Line) (rest : List (List Line)) : Prop where
  queue : f.queue.toList = lines :: rest
  incomplete : Line.states lines goal = false
  short : lines.length ≤ settings.maxLines

/-- What a pass can do, and what it counts. -/
inductive Passed : Nat → Frontier → Pass → Prop
  | exhausted {left f r} (hqueue : f.queue.toList = [])
      (hr : r.ending
        = .halted (if settings.maxLines < f.lastLength then .maximumLines else .deadEnd))
      (hstats : r.stats = f.stats) : Passed left f (.ends r)
  | complete {left f r lines rest} (hqueue : f.queue.toList = lines :: rest)
      (hstates : Line.states lines goal = true) (hr : r.ending = .proved lines)
      (hstats : r.stats = f.stats) : Passed left f (.ends r)
  | discarded {left f g lines} (hqueue : f.queue.toList = lines :: g.queue.toList)
      (hstates : Line.states lines goal = false)
      (hlong : settings.maxLines < lines.length) (hseen : g.seen = f.seen)
      (hlast : g.lastLength = lines.length) (hstats : g.stats = f.stats.addDiscarded) :
      Passed left f (.goesOn left g)
  | spent {f r lines rest} (hf : Expands goal settings f lines rest)
      (hr : r.ending = .halted .maximumIteration) (hstats : r.stats = f.stats.addIteration) :
      Passed 0 f (.ends r)
  | broke {left f r lines rest fault} (hf : Expands goal settings f lines rest)
      (hfound : Node.candidates search ⟨lines, goal, settings⟩ = .error fault)
      (hr : r.ending = .broken fault) (hstats : r.stats = f.stats.addIteration) :
      Passed (left + 1) f (.ends r)
  | finished {left f r lines rest found e} (hf : Expands goal settings f lines rest)
      (hfound : Node.candidates search ⟨lines, goal, settings⟩ = .ok found)
      (he : found.candidates.find? (fun e => decide (e.last.formula = goal)) = some e)
      (hr : r.ending = .proved (lines ++ e.lines))
      (hstats : r.stats = f.stats.addIteration.addFound found) : Passed (left + 1) f (.ends r)
  | expanded {left f g lines rest found} (hf : Expands goal settings f lines rest)
      (hfound : Node.candidates search ⟨lines, goal, settings⟩ = .ok found)
      (hnone : found.candidates.find? (fun e => decide (e.last.formula = goal)) = none)
      (hqueue : g.queue.toList
        = rest ++ admitted f.seen (found.candidates.map fun e => lines ++ e.lines))
      (hseen : g.seen = noted f.seen (found.candidates.map fun e => lines ++ e.lines))
      (hlast : g.lastLength = lines.length)
      (hstats : g.stats
        = (f.stats.addIteration.addFound found).addChildren
            (admitted f.seen (found.candidates.map fun e => lines ++ e.lines)).length
            (found.candidates.length
              - (admitted f.seen (found.candidates.map fun e => lines ++ e.lines)).length)) :
      Passed (left + 1) f (.goesOn left g)

theorem passed_pass (left : Nat) (f : Frontier) :
    Passed search goal settings left f (f.pass search goal settings left) := by
  rw [pass]
  rcases hpop : f.queue.pop? with - | ⟨lines, queue⟩
  · exact .exhausted (Queue.pop?_eq_none_iff.mp hpop) rfl rfl
  · have hqueue := Queue.toList_eq_of_pop? hpop
    by_cases hstates : Line.states lines goal
    · simp only [hstates, if_true]
      exact .complete hqueue hstates rfl rfl
    · have hincomplete : Line.states lines goal = false := by simpa using hstates
      by_cases hlong : settings.maxLines < lines.length
      · simp only [hstates, hlong, if_true, if_false, Bool.false_eq_true]
        exact .discarded hqueue hincomplete hlong rfl rfl rfl
      · simp only [hstates, hlong, if_false, Bool.false_eq_true]
        have hf : Expands goal settings f lines queue.toList :=
          ⟨hqueue, hincomplete, Nat.le_of_not_lt hlong⟩
        rcases left with - | left
        · exact .spent hf rfl rfl
        · simp only
          rcases hfound : Node.candidates search ⟨lines, goal, settings⟩ with fault | found
          · exact .broke hf hfound rfl rfl
          · simp only
            split
            · next e he => exact .finished hf hfound he rfl rfl
            · next hnone =>
              -- the frontier whose queue the children are put into
              let taken : Frontier :=
                ({ f with queue, lastLength := lines.length } : Frontier).countIteration.countFound
                  found
              obtain ⟨hq, hs, hl⟩ := foldl_enqueue taken lines found.candidates
              have hcount := foldl_enqueue_stats taken lines found.candidates
              exact .expanded hf hfound hnone hq hs hl hcount

/-- Induction along the passes of a run. -/
theorem run_pass_induction {motive : Nat → Frontier → Run → Prop}
    (ends : ∀ left f r, f.pass search goal settings left = .ends r → motive left f r)
    (goesOn : ∀ left f left' g, f.pass search goal settings left = .goesOn left' g →
      motive left' g (g.run search goal settings left') →
      motive left f (g.run search goal settings left'))
    (left : Nat) (f : Frontier) : motive left f (f.run search goal settings left) := by
  have hpass := passed_pass search goal settings left f
  rw [run_eq_pass]
  rcases h : f.pass search goal settings left with r | ⟨left', g⟩
  · exact ends left f r h
  · rw [h] at hpass
    -- the budget shrinks, or it stays and the queue does
    have hsmaller : left' < left ∨
        left' = left ∧ g.queue.toList.length < f.queue.toList.length := by
      cases hpass with
      | discarded hqueue => exact .inr ⟨rfl, by simp [hqueue]⟩
      | expanded => exact .inl (Nat.lt_succ_self left')
    exact goesOn left f left' g h (run_pass_induction ends goesOn left' g)
termination_by (left, f.queue.toList.length)
decreasing_by
  rcases hsmaller with hlt | ⟨rfl, hlt⟩
  · exact Prod.Lex.left _ _ hlt
  · exact Prod.Lex.right _ hlt

/-- **What every pass keeps holds of every run.** -/
theorem run_induction {motive : Nat → Frontier → Run → Prop}
    (ends : ∀ left f r, Passed search goal settings left f (.ends r) → motive left f r)
    (goesOn : ∀ left f left' g, Passed search goal settings left f (.goesOn left' g) →
      motive left' g (g.run search goal settings left') →
      motive left f (g.run search goal settings left'))
    (left : Nat) (f : Frontier) : motive left f (f.run search goal settings left) := by
  apply run_pass_induction
  · intro left f r h
    exact ends left f r (h ▸ passed_pass search goal settings left f)
  · intro left f left' g h
    exact goesOn left f left' g (h ▸ passed_pass search goal settings left f)

/-! ### Runs by the node at the front -/

section Front

variable {search goal settings} {left : Nat} {f : Frontier} {lines : List Line}
  {rest : List (List Line)}

theorem run_of_empty (hqueue : f.queue.toList = []) :
    (f.run search goal settings left).ending
      = .halted (if settings.maxLines < f.lastLength then .maximumLines else .deadEnd) := by
  rw [run_eq_pass, pass, Queue.pop?_eq_none_iff.mpr hqueue]
  rfl

theorem run_of_complete (hqueue : f.queue.toList = lines :: rest)
    (hstates : Line.states lines goal = true) :
    (f.run search goal settings left).ending = .proved lines := by
  obtain ⟨queue, hpop, -⟩ := Queue.exists_pop? hqueue
  rw [run_eq_pass, pass, hpop]
  simp only [hstates, if_true]
  rfl

theorem run_of_long (search : Node → Run) (left : Nat) (hqueue : f.queue.toList = lines :: rest)
    (hstates : Line.states lines goal = false) (hlong : settings.maxLines < lines.length) :
    ∃ g : Frontier, g.queue.toList = rest ∧ g.seen = f.seen ∧ g.lastLength = lines.length ∧
      f.run search goal settings left = g.run search goal settings left := by
  obtain ⟨queue, hpop, hrest⟩ := Queue.exists_pop? hqueue
  rw [run_eq_pass, pass, hpop]
  simp only [hstates, hlong, if_true, if_false, Bool.false_eq_true]
  refine ⟨_, ?_, ?_, ?_, rfl⟩
  · exact hrest
  · rfl
  · rfl

theorem run_of_finish {found : Found} {e : Extension} (hf : Expands goal settings f lines rest)
    (hfound : Node.candidates search ⟨lines, goal, settings⟩ = .ok found)
    (he : found.candidates.find? (fun e => decide (e.last.formula = goal)) = some e) :
    (f.run search goal settings (left + 1)).ending = .proved (lines ++ e.lines) := by
  obtain ⟨queue, hpop, -⟩ := Queue.exists_pop? hf.queue
  have hshort := Nat.not_lt.mpr hf.short
  rw [run_eq_pass, pass, hpop]
  simp only [hf.incomplete, hshort, if_false, Bool.false_eq_true, hfound, he]
  rfl

theorem run_of_expand {found : Found} (left : Nat) (hf : Expands goal settings f lines rest)
    (hfound : Node.candidates search ⟨lines, goal, settings⟩ = .ok found)
    (hnone : found.candidates.find? (fun e => decide (e.last.formula = goal)) = none) :
    ∃ g : Frontier,
      g.queue.toList
        = rest ++ admitted f.seen (found.candidates.map fun e => lines ++ e.lines) ∧
      g.seen = noted f.seen (found.candidates.map fun e => lines ++ e.lines) ∧
      g.lastLength = lines.length ∧
      f.run search goal settings (left + 1) = g.run search goal settings left := by
  obtain ⟨queue, hpop, rfl⟩ := Queue.exists_pop? hf.queue
  have hshort := Nat.not_lt.mpr hf.short
  rw [run_eq_pass, pass, hpop]
  simp only [hf.incomplete, hshort, if_false, Bool.false_eq_true, hfound, hnone]
  obtain ⟨hqueue, hseen, hlast⟩ := foldl_enqueue
    (({ f with queue, lastLength := lines.length } : Frontier).countIteration.countFound found)
    lines found.candidates
  exact ⟨_, hqueue, hseen, hlast, rfl⟩

end Front

end Frontier

end NaturalDeduction
