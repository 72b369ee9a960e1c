/-
Lists without repeats.

`distinctBy` drops every item that came before.  The items kept so far lie in
buckets by a key, so that an item is compared with few of them.  The key only
saves time: whatever it is, the result is the list without its repeats
(`distinctBy_eq_eraseDups`).
-/
import Std.Data.TreeMap

namespace NaturalDeduction

namespace Distinct

variable {α : Type}

/-- Items in buckets by their keys. -/
abbrev Buckets (α : Type) := Std.TreeMap Nat (List α)

/-- The items with the same key as a given one. -/
def bucket (key : α → Nat) (kept : Buckets α) (a : α) : List α :=
  kept.getD (key a) []

/-- Adds an item to its bucket. -/
def add (key : α → Nat) (kept : Buckets α) (a : α) : Buckets α :=
  kept.insert (key a) (a :: bucket key kept a)

/-- The items of a list that are not among those kept already, each once. -/
def beyond [DecidableEq α] (key : α → Nat) (kept : Buckets α) : List α → List α
  | [] => []
  | a :: rest =>
    if a ∈ bucket key kept a then beyond key kept rest
    else a :: beyond key (add key kept a) rest

theorem mem_bucket_add {key : α → Nat} {kept : Buckets α} {a b : α} :
    b ∈ bucket key (add key kept a) b ↔ b = a ∨ b ∈ bucket key kept b := by
  by_cases hkey : key a = key b
  · simp [bucket, add, hkey]
  · have hne : b ≠ a := fun h => hkey (congrArg key h.symm)
    simp [bucket, add, Std.TreeMap.getD_insert, hkey, hne]

theorem beyond_eq_eraseDups [DecidableEq α] (key : α → Nat) (kept : Buckets α)
    (l : List α) :
    beyond key kept l
      = (l.filter fun a => decide (a ∉ bucket key kept a)).eraseDups := by
  induction l generalizing kept with
  | nil => rfl
  | cons a rest ih =>
    rw [beyond]
    by_cases h : a ∈ bucket key kept a
    · rw [if_pos h, ih, List.filter_cons_of_neg (by simpa using h)]
    · rw [if_neg h, ih, List.filter_cons_of_pos (by simpa using h),
        List.eraseDups_cons, List.filter_filter]
      congr 2
      apply List.filter_congr
      intro b _
      by_cases hb : b = a
      · simp [mem_bucket_add, hb]
      · simp [mem_bucket_add, hb]

end Distinct

/-- The list without its repeats, each item at its first place. -/
def distinctBy {α : Type} [DecidableEq α] (key : α → Nat) (l : List α) : List α :=
  Distinct.beyond key ∅ l

theorem distinctBy_eq_eraseDups {α : Type} [DecidableEq α] (key : α → Nat)
    (l : List α) : distinctBy key l = l.eraseDups := by
  rw [distinctBy, Distinct.beyond_eq_eraseDups]
  congr 1
  rw [List.filter_eq_self]
  intro a _
  simp [Distinct.bucket]

end NaturalDeduction
