/-
Attempts at a proof.

An attempt holds a goal, the assumptions it is to be proved from, and the
lines established so far, which are at first the assumptions themselves.
Searching either replaces the lines by a whole proof or leaves them alone; in
both cases the attempt remembers how the search ended and what it counted.  A
search that breaks off changes nothing.

An attempt may be searched again, also after its goal or its settings were
replaced.
-/
import NaturalDeduction.Search.Basic

namespace NaturalDeduction

/-- An attempt to prove a goal from assumptions. -/
structure Attempt where
  assumptions : List Formula
  goal : Formula
  settings : Settings
  lines : List Line
  /-- Whether it is made inside another search. -/
  nested : Bool
  status : Status
  /-- What the last search counted. -/
  stats : Option Stats
deriving Repr

namespace Attempt

/-- A fresh attempt, whose lines are the assumptions. -/
def start (assumptions : List Formula) (goal : Formula) (settings : Settings) : Attempt :=
  ⟨assumptions, goal, settings, Line.ofAssumptions assumptions, false, .searching, none⟩

/-- A fresh attempt inside another search, from the given lines. -/
def startNested (assumptions : List Formula) (goal : Formula) (lines : List Line)
    (settings : Settings) : Attempt :=
  ⟨assumptions, goal, settings, lines, true, .searching, none⟩

/-- The node that a search of an attempt starts from. -/
def node (a : Attempt) : Node :=
  ⟨a.lines, a.goal, a.settings⟩

/-- The attempt after a run from its node. -/
def update (a : Attempt) (r : Run) : Attempt :=
  match r.ending with
  | .proved lines => { a with lines, status := .finished, stats := some r.stats }
  | .halted why => { a with status := .halted why, stats := some r.stats }
  | .broken _ => a

/-- Searches for a proof: the result of the search, and the attempt after
it. -/
def search (a : Attempt) : Run × Attempt :=
  let run := a.node.search
  (run, a.update run)

/-- What an attempt and a run of it tell the log. -/
def log (a : Attempt) (r : Run) : Array Event :=
  r.fullTrace a.nested a.goal

/-- The lines of a sequence from an index on.  An index below zero counts from
the end, and one out of range is brought to the nearest end. -/
def linesFrom (lines : List Line) (start : Int) : List Line :=
  if 0 ≤ start then lines.drop start.toNat
  else lines.drop (lines.length + start).toNat

/-- The lines from an index on that are not assumptions. -/
def deductions (a : Attempt) (start : Int) : List Line :=
  (linesFrom a.lines start).filter (·.rule ≠ .assumption)

end Attempt

end NaturalDeduction
