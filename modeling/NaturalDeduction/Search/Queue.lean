/-
First-in, first-out queues.

A queue is kept as two lists: the front in order, and the back in reverse, so
that adding and taking cost constant time on average.  What a queue holds is
its `toList`, and each operation is described by what it does to that list.
-/

namespace NaturalDeduction

/-- A first-in, first-out queue. -/
structure Queue (α : Type) where
  front : List α
  back : List α
deriving Repr

namespace Queue

variable {α : Type}

/-- What a queue holds, from front to back. -/
def toList (q : Queue α) : List α :=
  q.front ++ q.back.reverse

/-- The queue that holds one thing. -/
def singleton (a : α) : Queue α := ⟨[a], []⟩

/-- Adds something at the back. -/
def push (q : Queue α) (a : α) : Queue α :=
  { q with back := a :: q.back }

/-- Takes the thing at the front. -/
def pop? (q : Queue α) : Option (α × Queue α) :=
  match q.front with
  | a :: front => some (a, { q with front })
  | [] =>
    match q.back.reverse with
    | a :: front => some (a, ⟨front, []⟩)
    | [] => none

@[simp] theorem toList_singleton (a : α) : (singleton a).toList = [a] := rfl

@[simp] theorem toList_push (q : Queue α) (a : α) :
    (q.push a).toList = q.toList ++ [a] := by
  simp [toList, push]

theorem toList_eq_of_pop? {q q' : Queue α} {a : α} (h : q.pop? = some (a, q')) :
    q.toList = a :: q'.toList := by
  rcases q with ⟨front, back⟩
  rcases front with - | ⟨b, front⟩
  · rcases hback : back.reverse with - | ⟨b, rest⟩
    · simp [pop?, hback] at h
    · obtain ⟨rfl, rfl⟩ : b = a ∧ Queue.mk rest [] = q' := by
        simpa [pop?, hback] using h
      simp [toList, hback]
  · obtain ⟨rfl, rfl⟩ : b = a ∧ Queue.mk front back = q' := by
      simpa [pop?] using h
    simp [toList]

theorem pop?_eq_none_iff {q : Queue α} : q.pop? = none ↔ q.toList = [] := by
  rcases q with ⟨front, back⟩
  rcases front with - | ⟨b, front⟩
  · rcases hback : back.reverse with - | ⟨b, rest⟩ <;> simp [pop?, toList, hback]
  · simp [pop?, toList]

end Queue

end NaturalDeduction
