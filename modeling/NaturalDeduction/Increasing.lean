/-
Strictly increasing lists.

A finite set of ordered things is kept as the list of its members in
increasing order, each of them once.  Insertion keeps a list increasing
(`increasing_insert`), and the members afterwards are the old ones and the
new one (`mem_insert`).  An increasing list is determined by its members
(`ext_of_mem`), so such lists are a canonical form for finite sets.
-/

namespace NaturalDeduction

namespace Increasing

variable {α : Type} [LT α] [DecidableLT α] [DecidableEq α]

/-- Puts `a` at its place in an increasing list, unless it is there
already. -/
def insert (a : α) : List α → List α
  | [] => [a]
  | b :: l =>
    if a = b then b :: l
    else if a < b then a :: b :: l
    else b :: insert a l

/-- The members of a list in increasing order, each of them once. -/
def ofList (l : List α) : List α :=
  l.foldr insert []

@[simp] theorem mem_insert {a x : α} {l : List α} :
    x ∈ insert a l ↔ x = a ∨ x ∈ l := by
  induction l with
  | nil => simp [insert]
  | cons b l ih =>
    by_cases hab : a = b
    · subst hab
      simp [insert]
    · by_cases hlt : a < b
      · simp [insert, hab, hlt]
      · simp [insert, hab, hlt, ih]
        grind

@[simp] theorem mem_ofList {x : α} {l : List α} : x ∈ ofList l ↔ x ∈ l := by
  induction l with
  | nil => simp [ofList]
  | cons a l ih =>
    have hcons : ofList (a :: l) = insert a (ofList l) := rfl
    simp [hcons, ih]

/-! ### Lists of integers -/

theorem increasing_insert {a : Int} {l : List Int} (h : l.Pairwise (· < ·)) :
    (insert a l).Pairwise (· < ·) := by
  induction l with
  | nil => simp [insert]
  | cons b l ih =>
    obtain ⟨hb, hl⟩ := List.pairwise_cons.mp h
    by_cases hab : a = b
    · simpa [insert, hab] using h
    · by_cases hlt : a < b
      · have hbelow : ∀ x ∈ b :: l, a < x := by
          intro x hx
          rcases List.mem_cons.mp hx with rfl | hx
          · exact hlt
          · exact Int.lt_trans hlt (hb x hx)
        have heq : insert a (b :: l) = a :: b :: l := by simp [insert, hab, hlt]
        rw [heq]
        exact List.pairwise_cons.mpr ⟨hbelow, h⟩
      · have habove : ∀ x ∈ insert a l, b < x := by
          intro x hx
          rcases mem_insert.mp hx with rfl | hx
          · omega
          · exact hb x hx
        have heq : insert a (b :: l) = b :: insert a l := by simp [insert, hab, hlt]
        rw [heq]
        exact List.pairwise_cons.mpr ⟨habove, ih hl⟩

theorem increasing_ofList (l : List Int) : (ofList l).Pairwise (· < ·) := by
  induction l with
  | nil => simp [ofList]
  | cons a l ih => exact increasing_insert ih

/-- An increasing list is determined by its members. -/
theorem ext_of_mem {l m : List Int} (hl : l.Pairwise (· < ·))
    (hm : m.Pairwise (· < ·)) (h : ∀ x, x ∈ l ↔ x ∈ m) : l = m := by
  induction l generalizing m with
  | nil =>
    rcases m with - | ⟨b, m⟩
    · rfl
    · exact absurd ((h b).mpr (by simp)) (by simp)
  | cons a l ih =>
    rcases m with - | ⟨b, m⟩
    · exact absurd ((h a).mp (by simp)) (by simp)
    · obtain ⟨ha, hl'⟩ := List.pairwise_cons.mp hl
      obtain ⟨hb, hm'⟩ := List.pairwise_cons.mp hm
      have hab : a = b := by
        have h₁ := (h a).mp (by simp)
        have h₂ := (h b).mpr (by simp)
        grind
      subst hab
      have hrest : ∀ x, x ∈ l ↔ x ∈ m := by
        intro x
        have hx := h x
        grind
      exact congrArg (a :: ·) (ih hl' hm' hrest)

end Increasing

end NaturalDeduction
