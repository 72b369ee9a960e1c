/-
Reports on attempts.

The report for people lists the lines of an attempt, two blanks further in
for each block around a line.  The record for programs has the same content
as fields, with lines and citations counted from one.
-/
import NaturalDeduction.Attempt.Basic
import NaturalDeduction.Value.Basic

namespace NaturalDeduction

/-! ### Records -/

/-- Indices counted from one, as a list of values. -/
def IndexSet.toRecord (s : IndexSet) : Value :=
  .list (s.toList.map fun n => .int (n + 1))

/-- The record of a line. -/
def Line.toRecord (l : Line) : Value :=
  .mapping
    [(.text "line", .int (l.number + 1)),
     (.text "expression", .text l.formula.render),
     (.text "rule", .text l.rule.abbreviation),
     (.text "assumptions", l.rests.toRecord),
     (.text "from", (IndexSet.ofList l.cites).toRecord)]

/-- The record of what a search counted. -/
def Stats.toRecord (s : Stats) : Value :=
  .mapping
    [(.text "iterations", .int s.iterations),
     (.text "nodes_enqueued", .int s.enqueued),
     (.text "over_length_discarded", .int s.overLength),
     (.text "dead_ends", .int s.deadEnds),
     (.text "candidates_generated", .int s.candidates),
     (.text "sub_searches", .int s.subSearches),
     (.text "duplicate_states_skipped", .int s.duplicates)]

namespace Attempt

/-- The record of an attempt. -/
def toRecord (a : Attempt) : Value :=
  .mapping
    [(.text "assumptions", .list (a.assumptions.map fun f => .text f.render)),
     (.text "conclusion", .text a.goal.render),
     (.text "state", .text a.status.name),
     (.text "settings", a.settings.toValue),
     (.text "stats", (a.stats.map Stats.toRecord).getD .null),
     (.text "lines", .list (a.lines.map Line.toRecord))]

/-! ### The report -/

/-- A line of the report, at a depth. -/
def indented (depth : Nat) (l : Line) : String :=
  String.ofList (List.replicate (2 * depth) ' ') ++ l.render

/-- The report on an attempt. -/
def report (a : Attempt) : String :=
  "\n".intercalate
    (["Assumptions: [" ++ Formula.renderAll a.assumptions ++ "]",
      "Conclusion: " ++ a.goal.render,
      "Total Proof Steps: " ++ toString a.lines.length,
      "Proof Steps:"]
      ++ List.zipWith indented (Line.blockDepths a.lines) a.lines)

end Attempt

end NaturalDeduction
