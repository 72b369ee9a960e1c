/-
Looking lines up by their numbers.

An index that is a place of a sequence leads to the line there
(`get_natCast`), and lines added behind do not change that (`get_append`).  In
a sequence whose lines are numbered by their places, the number of a line leads
back to it (`WellNumbered.get_number`), so whatever rests on lines of the
sequence can be worked out; and a place leads to the line with that number
(`WellNumbered.number_of_get`).
-/
import NaturalDeduction.Line.Sequence
import NaturalDeduction.Proofs.Faults

namespace NaturalDeduction

namespace Line

variable {lines more : List Line} {l : Line}

/-! ### Looking up -/

theorem get_natCast {i : Nat} : get lines i = .ok l ↔ lines[i]? = some l := by
  rw [get, at?, if_pos (Int.natCast_nonneg i), Int.toNat_natCast]
  rcases lines[i]? with - | k
  · simp
  · simp

theorem get_eq_ok_iff {n : Int} (hn : 0 ≤ n) :
    get lines n = .ok l ↔ lines[n.toNat]? = some l := by
  conv => lhs; rw [← Int.toNat_of_nonneg hn]
  exact get_natCast

theorem exists_get {n : Int} (hn : 0 ≤ n) (hlt : n < lines.length) :
    ∃ l ∈ lines, get lines n = .ok l := by
  have hlt' : n.toNat < lines.length := by omega
  exact ⟨lines[n.toNat], List.getElem_mem hlt',
    (get_eq_ok_iff hn).mpr (List.getElem?_eq_getElem hlt')⟩

theorem exists_mapM_get {indices : List Int}
    (h : ∀ n ∈ indices, 0 ≤ n ∧ n < (lines.length : Int)) :
    ∃ cited, indices.mapM (get lines) = .ok cited := by
  apply exists_mapM_eq_ok
  intro n hn
  obtain ⟨l, -, hl⟩ := exists_get (h n hn).1 (h n hn).2
  exact ⟨l, hl⟩

/-- Lines added behind are out of reach of the old indices. -/
theorem get_append {n : Int} (hn : 0 ≤ n) (hlt : n < lines.length) :
    get (lines ++ more) n = get lines n := by
  obtain ⟨l, -, hl⟩ := exists_get hn hlt
  rw [hl, get_eq_ok_iff hn, List.getElem?_append_left (by omega)]
  exact (get_eq_ok_iff hn).mp hl

theorem mem_of_get {n : Int} (hn : 0 ≤ n) (h : get lines n = .ok l) : l ∈ lines :=
  List.mem_of_getElem? ((get_eq_ok_iff hn).mp h)

/-! ### Numbers that are places -/

theorem WellNumbered.get_number (h : WellNumbered lines) (hl : l ∈ lines) :
    get lines l.number = .ok l := by
  obtain ⟨i, hi⟩ := List.getElem?_of_mem hl
  rw [h i l hi]
  exact get_natCast.mpr hi

/-- An index leads to the line that has it as its number. -/
theorem WellNumbered.number_of_get (h : WellNumbered lines) {n : Int} (hn : 0 ≤ n)
    (hl : get lines n = .ok l) : l.number = n := by
  rw [h _ l ((get_eq_ok_iff hn).mp hl)]
  exact Int.toNat_of_nonneg hn

theorem WellNumbered.number_nonneg (h : WellNumbered lines) (hl : l ∈ lines) :
    0 ≤ l.number := by
  obtain ⟨i, hi⟩ := List.getElem?_of_mem hl
  rw [h i l hi]
  exact Int.natCast_nonneg i

theorem WellNumbered.number_lt (h : WellNumbered lines) (hl : l ∈ lines) :
    l.number < lines.length := by
  obtain ⟨i, hi⟩ := List.getElem?_of_mem hl
  have hlt := (List.getElem?_eq_some_iff.mp hi).1
  rw [h i l hi]
  omega

theorem WellNumbered.of_append (h : WellNumbered (lines ++ more)) : WellNumbered lines := by
  intro i l hi
  apply h i l
  rw [List.getElem?_append_left (List.getElem?_eq_some_iff.mp hi).1]
  exact hi

theorem wellNumbered_append_singleton :
    WellNumbered (lines ++ [l]) ↔ WellNumbered lines ∧ l.number = lines.length := by
  constructor
  · intro h
    exact ⟨h.of_append, h lines.length l (by simp)⟩
  · rintro ⟨h, hl⟩ i k hi
    rcases Nat.lt_trichotomy i lines.length with hlt | rfl | hgt
    · rw [List.getElem?_append_left hlt] at hi
      exact h i k hi
    · obtain rfl : l = k := by simpa using hi
      exact hl
    · rw [List.getElem?_eq_none (by simp; omega)] at hi
      cases hi

theorem mem_ofAssumptions {fs : List Formula} (hl : l ∈ ofAssumptions fs) :
    ∃ (i : Nat) (f : Formula), l = ofAssumption f i := by
  obtain ⟨i, hi, rfl⟩ := List.mem_mapIdx.mp hl
  exact ⟨i, _, rfl⟩

theorem wellNumbered_ofAssumptions (fs : List Formula) : WellNumbered (ofAssumptions fs) := by
  intro i l hi
  rw [ofAssumptions, List.getElem?_mapIdx, Option.map_eq_some_iff] at hi
  obtain ⟨f, -, rfl⟩ := hi
  rfl

/-! ### What cited lines rest on -/

theorem mapM_get_numbers (h : WellNumbered lines) (hmore : ∀ l ∈ more, l ∈ lines) :
    (more.map number).mapM (get lines) = .ok more := by
  rw [mapM_eq_ok_iff, List.forall₂_map_left_iff, List.forall₂_same]
  exact fun l hl => h.get_number (hmore l hl)

/-- Indices that are places are the numbers of the lines they lead to. -/
theorem eq_map_number {indices : List Int} {cited : List Line} (h : WellNumbered lines)
    (hnonneg : ∀ n ∈ indices, 0 ≤ n) (hcited : indices.mapM (get lines) = .ok cited) :
    indices = cited.map number ∧ ∀ l ∈ cited, l ∈ lines := by
  rw [mapM_eq_ok_iff] at hcited
  induction hcited with
  | nil => exact ⟨rfl, by simp⟩
  | @cons n l indices cited hl _ ih =>
    obtain ⟨hn, hrest⟩ := List.forall_mem_cons.mp hnonneg
    obtain ⟨hnumbers, hlines⟩ := ih hrest
    constructor
    · rw [List.map_cons, h.number_of_get hn hl, ← hnumbers]
    · exact List.forall_mem_cons.mpr ⟨mem_of_get hn hl, hlines⟩

theorem restsAt_eq_ok_iff {indices : List Int} {s : IndexSet} :
    restsAt lines indices = .ok s ↔
      ∃ cited, indices.mapM (get lines) = .ok cited ∧ s = restsOf cited := by
  rw [restsAt, bind_eq_ok_iff]
  simp only [pure_eq_ok_iff]

end Line

end NaturalDeduction
