/-
Breadth-first search for proofs.

Nodes wait in a queue.  The node at the front is taken: if it states the goal
the search is finished; if it has too many lines it is discarded; otherwise it
is expanded.  When one of its candidates states the goal the search is
finished with the first such candidate; otherwise every candidate gives a
child at the back of the queue.

The search ends without fuel.  Each pass through the queue shortens it or
spends one of the finitely many expansions.  A nested search starts with one
line more than the node it was started for, under a bound on lines that is no
larger, and only a node within the bound is expanded; so each nested search
has less room (`Node.room`) than the search that started it.
-/
import NaturalDeduction.Search.Candidates
import NaturalDeduction.Search.Queue
import NaturalDeduction.Search.Seen

namespace NaturalDeduction

/-! ### The state of a search -/

/-- A search between two passes. -/
structure Frontier where
  /-- The lines of the nodes that wait. -/
  queue : Queue (List Line)
  /-- The states queued so far, if the search keeps account of them. -/
  seen : Option Seen
  stats : Stats
  /-- The number of lines of the node taken last. -/
  lastLength : Nat
  trace : Array Event

namespace Frontier

/-- The search before its first pass. -/
def start (head : Node) : Frontier where
  queue := .singleton head.lines
  seen :=
    if head.settings.dedupe.truthy then
      some (Seen.empty.insert (Node.formulas head.lines))
    else none
  stats := {}
  lastLength := head.lines.length
  trace := #[]

/-- Ends a search with a proof. -/
def finish (f : Frontier) (lines : List Line) : Run :=
  ⟨.proved lines, f.stats, f.trace.push (.finished f.stats.iterations lines.length)⟩

/-- Ends a search without a proof. -/
def halt (f : Frontier) (why : Halt) : Run :=
  ⟨.halted why, f.stats, f.trace.push (.stopped why f.stats.iterations)⟩

/-- Breaks a search off. -/
def breakOff (f : Frontier) (fault : Fault) : Run :=
  ⟨.broken fault, f.stats, f.trace⟩

/-- Puts a child into the queue, unless its state was queued before. -/
def enqueue (f : Frontier) (child : List Line) : Frontier :=
  match f.seen with
  | none =>
    { f with
      queue := f.queue.push child
      stats := { f.stats with enqueued := f.stats.enqueued + 1 } }
  | some seen =>
    if seen.contains (Node.formulas child) then
      { f with stats := { f.stats with duplicates := f.stats.duplicates + 1 } }
    else
      { f with
        queue := f.queue.push child
        seen := some (seen.insert (Node.formulas child))
        stats := { f.stats with enqueued := f.stats.enqueued + 1 } }

/-- Counts a node as taken up for expansion. -/
def countIteration (f : Frontier) : Frontier :=
  { f with stats := { f.stats with iterations := f.stats.iterations + 1 } }

/-- Counts what was found for an expanded node. -/
def countFound (f : Frontier) (found : Found) : Frontier :=
  { f with
    stats :=
      { f.stats with
        candidates := f.stats.candidates + found.candidates.length
        subSearches := f.stats.subSearches + found.subSearches
        deadEnds := f.stats.deadEnds + if found.candidates.isEmpty then 1 else 0 }
    trace := f.trace ++ found.trace }

/-! ### Passes -/

/-- What comes next in a search. -/
inductive Next where
  /-- A node that states the goal. -/
  | complete (lines : List Line) (rest : Frontier)
  /-- A node to expand. -/
  | expand (lines : List Line) (rest : Frontier)
  /-- Nothing. -/
  | nothing (rest : Frontier)

/-- Takes nodes from the queue, and discards those with too many lines, up to
the first that states the goal or can be expanded. -/
def next (goal : Formula) (maxLines : Nat) (f : Frontier) : Next :=
  match h : f.queue.pop? with
  | none => .nothing f
  | some (lines, queue) =>
    have := Queue.toList_eq_of_pop? h
    let rest := { f with queue, lastLength := lines.length }
    if Line.states lines goal then .complete lines rest
    else if maxLines < lines.length then
      next goal maxLines
        { rest with stats := { f.stats with overLength := f.stats.overLength + 1 } }
    else .expand lines rest
termination_by f.queue.toList.length
decreasing_by simp [this]

/-- Goes on with a search for which `left` more expansions are allowed. -/
def run (search : Node → Run) (goal : Formula) (settings : Settings) :
    (left : Nat) → Frontier → Run
  | left, f =>
    match f.next goal settings.maxLines with
    | .complete lines f => f.finish lines
    | .nothing f =>
      f.halt (if settings.maxLines < f.lastLength then .maximumLines else .deadEnd)
    | .expand lines f =>
      let f := f.countIteration
      match left with
      | 0 => f.halt .maximumIteration
      | left + 1 =>
        match Node.candidates search ⟨lines, goal, settings⟩ with
        | .error fault => f.breakOff fault
        | .ok found =>
          let f := f.countFound found
          match found.candidates.find? fun e => e.last.formula = goal with
          | some e => f.finish (lines ++ e.lines)
          | none =>
            run search goal settings left
              (found.candidates.foldl (fun f e => f.enqueue (lines ++ e.lines)) f)

end Frontier

/-! ### The search -/

namespace Node

/-- The search from a node, when nested searches are done by `search`. -/
def searchWith (search : Node → Run) (head : Node) : Run :=
  (Frontier.start head).run search head.goal head.settings head.settings.iterations

/-- The search from a node.  A nested search always has less room. -/
def search (head : Node) : Run :=
  head.searchWith fun child =>
    if _h : child.room < head.room then child.search
    else ⟨.halted .deadEnd, {}, #[]⟩
termination_by head.room

end Node

end NaturalDeduction
