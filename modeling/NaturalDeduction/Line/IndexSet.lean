/-
Finite sets of line indices.

A set is kept as the increasing list of its members, so equal sets are equal
values and print alike.  An index is an integer: lines from outside may carry
any number, and an index below zero counts from the end of a sequence.
-/
import NaturalDeduction.Increasing

namespace NaturalDeduction

/-- A finite set of indices, as an increasing list. -/
structure IndexSet where
  toList : List Int
  increasing : toList.Pairwise (· < ·)
deriving DecidableEq, Repr

namespace IndexSet

/-- The set of the members of a list. -/
def ofList (l : List Int) : IndexSet :=
  ⟨Increasing.ofList l, Increasing.increasing_ofList l⟩

/-- The set with one member. -/
def singleton (n : Int) : IndexSet :=
  ⟨[n], List.pairwise_singleton _ n⟩

/-- The union of several sets. -/
def unions (sets : List IndexSet) : IndexSet :=
  ofList (sets.flatMap toList)

/-- The set of the images of the members. -/
def image (f : Int → Int) (s : IndexSet) : IndexSet :=
  ofList (s.toList.map f)

instance : Membership Int IndexSet where
  mem s n := n ∈ s.toList

theorem mem_def {n : Int} {s : IndexSet} : n ∈ s ↔ n ∈ s.toList := Iff.rfl

@[simp] theorem mem_ofList {n : Int} {l : List Int} : n ∈ ofList l ↔ n ∈ l := by
  simp [mem_def, ofList]

@[simp] theorem mem_singleton {n m : Int} : n ∈ singleton m ↔ n = m := by
  simp [mem_def, singleton]

@[simp] theorem mem_unions {n : Int} {sets : List IndexSet} :
    n ∈ unions sets ↔ ∃ s ∈ sets, n ∈ s := by
  simp [unions, mem_def, ofList]

@[simp] theorem mem_image {n : Int} {f : Int → Int} {s : IndexSet} :
    n ∈ image f s ↔ ∃ m ∈ s, f m = n := by
  simp [image, mem_def, ofList]

/-- Sets with the same members are equal. -/
theorem ext_iff_mem {s t : IndexSet} : s = t ↔ ∀ n, n ∈ s ↔ n ∈ t := by
  constructor
  · rintro rfl n
    exact Iff.rfl
  · intro h
    rcases s with ⟨l, hl⟩
    rcases t with ⟨m, hm⟩
    have hlm : l = m := Increasing.ext_of_mem hl hm h
    subst hlm
    rfl

end IndexSet

end NaturalDeduction
