/-
States that were seen before.

A state is a list of formulas up to order.  States are kept in buckets by a
fingerprint, a number that does not depend on the order, so that only few of
them have to be compared.  What matters is `contains_insert`: a state is
contained exactly when a permutation of it was inserted.
-/
import NaturalDeduction.Formula.Fingerprint
import Std.Data.TreeMap

namespace NaturalDeduction

/-- A collection of states. -/
structure Seen where
  buckets : Std.TreeMap Nat (List (List Formula))

namespace Seen

/-- A number that tells most states apart, whatever their order. -/
def fingerprint (state : List Formula) : Nat :=
  state.foldr (fun f n => f.fingerprint + n) 0

/-- No states. -/
def empty : Seen := ⟨∅⟩

/-- The states with the same fingerprint as a given one. -/
def bucket (s : Seen) (state : List Formula) : List (List Formula) :=
  s.buckets.getD (fingerprint state) []

/-- Adds a state. -/
def insert (s : Seen) (state : List Formula) : Seen :=
  ⟨s.buckets.insert (fingerprint state) (state :: s.bucket state)⟩

/-- Whether a state, in whatever order, was added. -/
def contains (s : Seen) (state : List Formula) : Bool :=
  (s.bucket state).any (·.isPerm state)

theorem fingerprint_eq_of_perm {a b : List Formula} (h : a.Perm b) :
    fingerprint a = fingerprint b := by
  refine List.Perm.foldr_eq' h ?_ 0
  intro f _ g _ n
  exact Nat.add_left_comm _ _ _

@[simp] theorem contains_empty (state : List Formula) :
    empty.contains state = false := by
  simp [contains, bucket, empty]

@[simp] theorem contains_insert (s : Seen) (a b : List Formula) :
    (s.insert a).contains b = (a.isPerm b || s.contains b) := by
  by_cases hfp : fingerprint a = fingerprint b
  · simp [contains, insert, bucket, hfp]
  · have hperm : a.isPerm b = false := by
      rw [Bool.eq_false_iff]
      intro h
      exact hfp (fingerprint_eq_of_perm (List.isPerm_iff.mp h))
    simp [contains, insert, bucket, Std.TreeMap.getD_insert, hfp, hperm]

end Seen

end NaturalDeduction
