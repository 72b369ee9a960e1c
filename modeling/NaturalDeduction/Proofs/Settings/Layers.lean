/-
Layers of settings, field by field.

Settings are made in three layers: the data of a file, the environment, and the
changes of the caller (`Settings.layered`).  A layer is described by the changes
that it asks for, where a null field asks for none: those of a file are
`fileFields`, those of the environment `environmentFields`.  Whether a layer can be
laid on does not depend on the settings below it, since these are in order already
(`exists_replace_iff`).  So settings come about exactly when every layer is sound
by itself, and no layer hides a fault of another.

Laying changes over settings replaces the fields that are not null
(`replace_eq_ok_iff`).  Three layers in turn leave in each field the last value
that was given (`fields_of_layered`).

The data of a file is what a reader of documents gives for its text; which reader
that is makes no difference (`load_eq`).

Main result: `layered_resolves`.
-/
import NaturalDeduction.CommandLine.Program
import NaturalDeduction.Proofs.Faults

namespace NaturalDeduction

/-! ### Values that are given -/

namespace Value

/-- The value, unless it is null. -/
def given? : Value → Option Value
  | null => none
  | v => some v

/-- The entry under a name, or null where there is none. -/
def entry (name : String) : Value → Value
  | mapping entries => (find? entries name).getD null
  | _ => null

def isMapping : Value → Bool
  | mapping _ => true
  | _ => false

/-- What may be given for a budget: nothing or a positive integer. -/
def Suits : Value → Prop
  | null => True
  | int n => 0 < n
  | _ => False

instance : DecidablePred Suits
  | null => isTrue trivial
  | int n => inferInstanceAs (Decidable (0 < n))
  | bool _ | float _ | nan | text _ | list _ | mapping _ | other _ _ => isFalse id

/-- Nothing or an integer of whatever size. -/
def Whole : Value → Prop
  | null | int _ => True
  | _ => False

theorem Suits.whole {v : Value} (h : v.Suits) : v.Whole := by
  cases v with
  | null | int _ => trivial
  | bool _ | float _ | nan | text _ | list _ | mapping _ | other _ _ => exact h.elim

/-- A flag that is written as a value: text counts by its word, anything else by
its truth. -/
def asFlag : Value → Bool
  | text word => Settings.isOn word
  | v => v.truthy

end Value

namespace Budget

/-- The section of a settings file where a budget stands, and its name there. -/
def place : Budget → String × String
  | maxLines => ("search", "max_line_length")
  | iterations => ("search", "iterations")
  | subMaxLines => ("sub_search", "max_line_length")
  | subIterations => ("sub_search", "iterations")

/-- The variable of the environment for a budget. -/
def variableName : Budget → String
  | maxLines => "PROVER_MAX_LINE_LENGTH"
  | iterations => "PROVER_ITERATIONS"
  | subMaxLines => "PROVER_SUB_MAX_LINE_LENGTH"
  | subIterations => "PROVER_SUB_ITERATIONS"

/-- What the data of a settings file gives for a budget. -/
def inFile (data : List (Value × Value)) (b : Budget) : Value :=
  ((Value.mapping data).entry b.place.1).entry b.place.2

theorem forall_iff {p : Budget → Prop} :
    (∀ b, p b) ↔ p maxLines ∧ p iterations ∧ p subMaxLines ∧ p subIterations := by
  constructor
  · intro h
    exact ⟨h maxLines, h iterations, h subMaxLines, h subIterations⟩
  · rintro ⟨h₁, h₂, h₃, h₄⟩ b
    cases b with
    | maxLines => exact h₁
    | iterations => exact h₂
    | subMaxLines => exact h₃
    | subIterations => exact h₄

instance {p : Budget → Prop} [DecidablePred p] : Decidable (∀ b, p b) :=
  decidable_of_iff _ forall_iff.symm

end Budget

namespace Settings

/-- A budget of settings. -/
def budget (s : Settings) : Budget → Nat
  | .maxLines => s.maxLines
  | .iterations => s.iterations
  | .subMaxLines => s.subMaxLines
  | .subIterations => s.subIterations

/-- The field for a budget. -/
def Fields.budget (f : Fields) : Budget → Value
  | .maxLines => f.maxLines
  | .iterations => f.iterations
  | .subMaxLines => f.subMaxLines
  | .subIterations => f.subIterations

theorem budget_pos (s : Settings) (b : Budget) : 0 < s.budget b := by
  cases b with
  | maxLines => exact s.maxLines_pos
  | iterations => exact s.iterations_pos
  | subMaxLines => exact s.subMaxLines_pos
  | subIterations => exact s.subIterations_pos

theorem fields_budget (s : Settings) (b : Budget) : s.fields.budget b = .int (s.budget b) := by
  cases b <;> rfl

/-- Fields that agree in every budget and in the flag are the same. -/
theorem Fields.ext_budget {f g : Fields} (h : ∀ b, f.budget b = g.budget b)
    (hdedupe : f.dedupe = g.dedupe) : f = g := by
  obtain ⟨h₁, h₂, h₃, h₄⟩ := Budget.forall_iff.mp h
  cases f
  cases g
  simp only [Fields.budget] at h₁ h₂ h₃ h₄ hdedupe
  rw [h₁, h₂, h₃, h₄, hdedupe]

/-! ### Changes laid over settings -/

theorem positive_eq_ok_iff {b : Budget} {v : Value} {n : { n : Nat // 0 < n }} :
    positive b v = .ok n ↔ v = .int n.1 := by
  obtain ⟨n, hn⟩ := n
  constructor
  · intro h
    unfold positive at h
    split at h
    · split at h
      · obtain rfl := Subtype.mk.inj (Except.ok.inj h)
        rfl
      · cases h
    · cases h
  · rintro rfl
    exact dif_pos hn

/-- Settings are made from their own fields and from no others. -/
theorem ofFields_eq_ok_iff {f : Fields} {s : Settings} : ofFields f = .ok s ↔ f = s.fields := by
  simp only [ofFields, bind_eq_ok_iff, positive_eq_ok_iff, pure_eq_ok_iff]
  constructor
  · rintro ⟨maxLines, h₁, iterations, h₂, subMaxLines, h₃, subIterations, h₄, rfl⟩
    exact Fields.ext_budget (Budget.forall_iff.mpr ⟨h₁, h₂, h₃, h₄⟩) rfl
  · rintro rfl
    exact ⟨⟨s.maxLines, s.maxLines_pos⟩, rfl, ⟨s.iterations, s.iterations_pos⟩, rfl,
      ⟨s.subMaxLines, s.subMaxLines_pos⟩, rfl, ⟨s.subIterations, s.subIterations_pos⟩, rfl, rfl⟩

/-- Some settings have the given fields if every budget is a positive integer. -/
theorem exists_fields_eq {f : Fields} (h : ∀ b, ∃ n : Nat, 0 < n ∧ f.budget b = .int n) :
    ∃ s : Settings, f = s.fields := by
  obtain ⟨maxLines, maxLines_pos, h₁⟩ := h .maxLines
  obtain ⟨iterations, iterations_pos, h₂⟩ := h .iterations
  obtain ⟨subMaxLines, subMaxLines_pos, h₃⟩ := h .subMaxLines
  obtain ⟨subIterations, subIterations_pos, h₄⟩ := h .subIterations
  let s : Settings :=
    { maxLines, iterations, subMaxLines, subIterations, dedupe := f.dedupe
      maxLines_pos, iterations_pos, subMaxLines_pos, subIterations_pos }
  exact ⟨s, Fields.ext_budget (Budget.forall_iff.mpr ⟨h₁, h₂, h₃, h₄⟩) rfl⟩

/-- The fields with those replaced that the changes give. -/
def Fields.overlaid (f changes : Fields) : Fields where
  maxLines := changes.maxLines.given?.getD f.maxLines
  iterations := changes.iterations.given?.getD f.iterations
  subMaxLines := changes.subMaxLines.given?.getD f.subMaxLines
  subIterations := changes.subIterations.given?.getD f.subIterations
  dedupe := changes.dedupe.given?.getD f.dedupe

theorem Fields.overlaid_budget (f changes : Fields) (b : Budget) :
    (f.overlaid changes).budget b = (changes.budget b).given?.getD (f.budget b) := by
  cases b <;> rfl

theorem orElse_eq (new old : Value) : orElse new old = new.given?.getD old := by
  cases new <;> rfl

theorem replace_eq_ok_iff {s t : Settings} {changes : Fields} :
    s.replace changes = .ok t ↔ t.fields = s.fields.overlaid changes := by
  simp only [replace, ofFields_eq_ok_iff, orElse_eq]
  exact eq_comm

/-- What suits a budget leaves a positive integer in its place. -/
theorem suits_iff {v : Value} {m : Nat} (hm : 0 < m) :
    v.Suits ↔ ∃ n : Nat, 0 < n ∧ v.given?.getD (.int m) = .int n := by
  cases v with
  | null => exact ⟨fun _ => ⟨m, hm, rfl⟩, fun _ => trivial⟩
  | int k =>
    constructor
    · intro hk
      obtain ⟨n, rfl⟩ := Int.eq_ofNat_of_zero_le (Int.le_of_lt hk)
      exact ⟨n, Int.ofNat_lt.mp hk, rfl⟩
    · rintro ⟨n, hn, h⟩
      obtain rfl := Value.int.inj h
      exact Int.ofNat_lt.mpr hn
  | bool _ | float _ | nan | text _ | list _ | mapping _ | other _ _ =>
    exact ⟨False.elim, by rintro ⟨n, -, h⟩; cases h⟩

/-- Whether changes can be laid over settings depends on the changes alone. -/
theorem exists_replace_iff {s : Settings} {changes : Fields} :
    (∃ t, s.replace changes = .ok t) ↔ ∀ b, (changes.budget b).Suits := by
  simp only [replace_eq_ok_iff]
  constructor
  · rintro ⟨t, ht⟩ b
    have hb := congrArg (Fields.budget · b) ht
    simp only [fields_budget, Fields.overlaid_budget] at hb
    exact (suits_iff (s.budget_pos b)).mpr ⟨t.budget b, t.budget_pos b, hb.symm⟩
  · intro h
    obtain ⟨t, ht⟩ := exists_fields_eq (f := s.fields.overlaid changes) fun b => by
      rw [Fields.overlaid_budget, fields_budget]
      exact (suits_iff (s.budget_pos b)).mp (h b)
    exact ⟨t, ht.symm⟩

/-- A layer that is read as the changes `c` wherever `p` holds, and else not at
all. -/
theorem bind_replace_eq_ok_iff {read : Except SettingsError Fields} {c : Fields} {p : Prop}
    (hread : ∀ changes, read = .ok changes ↔ p ∧ changes = c) {base s : Settings} :
    read >>= base.replace = .ok s ↔ p ∧ base.replace c = .ok s := by
  rw [bind_eq_ok_iff]
  constructor
  · rintro ⟨changes, hchanges, hs⟩
    obtain ⟨hp, rfl⟩ := (hread changes).mp hchanges
    exact ⟨hp, hs⟩
  · rintro ⟨hp, hs⟩
    exact ⟨c, (hread c).mpr ⟨hp, rfl⟩, hs⟩

/-! ### The data of a file -/

/-- What the data of a file gives for the flag. -/
def flagInFile (data : List (Value × Value)) : Option Value :=
  (((Value.mapping data).entry "search").entry "deduplicate_states").given?.map
    fun v => .bool v.asFlag

/-- The changes that the data of a file stands for. -/
def fileFields (data : List (Value × Value)) : Fields where
  maxLines := Budget.inFile data .maxLines
  iterations := Budget.inFile data .iterations
  subMaxLines := Budget.inFile data .subMaxLines
  subIterations := Budget.inFile data .subIterations
  dedupe := (flagInFile data).getD .null

theorem fileFields_budget (data : List (Value × Value)) (b : Budget) :
    (fileFields data).budget b = b.inFile data := by
  cases b <;> rfl

/-- The data of a file has no fault: a section that counts as true is a mapping, and
what stands for a budget suits it. -/
structure FileSound (data : List (Value × Value)) : Prop where
  sections : ∀ name ∈ ["search", "sub_search"],
    ((Value.mapping data).entry name).truthy = true →
      ((Value.mapping data).entry name).isMapping = true
  budgets : ∀ b : Budget, (b.inFile data).Suits

/-- The section that a value stands for: one that counts as false is empty. -/
def sectionOf? : Value → Option (List (Value × Value))
  | .mapping entries => some entries
  | v => if v.truthy then none else some []

theorem section?_eq (data : List (Value × Value)) (name : String) : section? data name
    = sectionOf? ((Value.mapping data).entry name) := by
  rw [section?, Value.entry]
  rcases Value.find? data name with - | v
  · rfl
  · cases v <;> rfl

theorem exists_sectionOf?_iff {v : Value} :
    (∃ entries, sectionOf? v = some entries) ↔ (v.truthy = true → v.isMapping = true) := by
  cases v with
  | mapping entries => simp [sectionOf?, Value.isMapping]
  | null | bool _ | int _ | float _ | nan | text _ | list _ | other _ _ =>
    simp only [sectionOf?, Value.isMapping]
    split <;> simp_all

/-- What is no mapping stands for an empty section at most. -/
theorem sectionOf?_cases {v : Value} {entries : List (Value × Value)}
    (h : sectionOf? v = some entries) :
    v = .mapping entries ∨ v.isMapping = false ∧ v.truthy = false ∧ entries = [] := by
  cases v with
  | mapping entries' => exact .inl (congrArg Value.mapping (Option.some.inj h))
  | null | bool _ | int _ | float _ | nan | text _ | list _ | other _ _ =>
    simp only [sectionOf?] at h
    split at h
    · cases h
    · next hfalse =>
      exact .inr ⟨rfl, Bool.eq_false_iff.mpr hfalse, (Option.some.inj h).symm⟩

theorem entry_of_sectionOf? {v : Value} {entries : List (Value × Value)}
    (h : sectionOf? v = some entries) (name : String) :
    (Value.find? entries name).getD .null = v.entry name := by
  rcases sectionOf?_cases h with rfl | ⟨hmapping, -, rfl⟩
  · rfl
  · cases v with
    | mapping _ => cases hmapping
    | null | bool _ | int _ | float _ | nan | text _ | list _ | other _ _ => rfl

section Entries

variable {v w : Value} {entries : List (Value × Value)} {name : String}

theorem integerEntry_eq_ok_iff (hv : sectionOf? v = some entries) :
    integerEntry entries name = .ok w ↔ (v.entry name).Whole ∧ w = v.entry name := by
  rw [integerEntry, entry_of_sectionOf? hv]
  generalize v.entry name = u
  cases u with
  | null | int _ => simp [Value.Whole, eq_comm]
  | bool _ | float _ | nan | text _ | list _ | mapping _ | other _ _ => simp [Value.Whole]

theorem flagEntry_eq (hv : sectionOf? v = some entries) :
    flagEntry entries name = ((v.entry name).given?.map fun u => .bool u.asFlag).getD .null := by
  rw [flagEntry, entry_of_sectionOf? hv]
  cases v.entry name <;> rfl

end Entries

/-- The changes that are read from the data of a file are those it stands for. -/
theorem mappingChanges_eq_ok_iff {data : List (Value × Value)} {changes : Fields} :
    mappingChanges data = .ok changes ↔
      ((∀ name ∈ ["search", "sub_search"],
          ∃ entries, sectionOf? ((Value.mapping data).entry name) = some entries) ∧
        ∀ b : Budget, (b.inFile data).Whole) ∧ changes = fileFields data := by
  rw [mappingChanges, section?_eq, section?_eq, Budget.forall_iff]
  rcases hsearch : sectionOf? ((Value.mapping data).entry "search") with - | search
  · simp [hsearch, throw, throwThe, MonadExceptOf.throw]
  · rcases hsub : sectionOf? ((Value.mapping data).entry "sub_search") with - | sub
    · simp [hsub, throw, throwThe, MonadExceptOf.throw]
    · simp only [bind_eq_ok_iff, pure_eq_ok_iff, integerEntry_eq_ok_iff hsearch,
        integerEntry_eq_ok_iff hsub, flagEntry_eq hsearch]
      constructor
      · rintro ⟨_, ⟨h₁, rfl⟩, _, ⟨h₂, rfl⟩, _, ⟨h₃, rfl⟩, _, ⟨h₄, rfl⟩, rfl⟩
        exact ⟨⟨by simp [hsearch, hsub], h₁, h₂, h₃, h₄⟩, rfl⟩
      · rintro ⟨⟨-, h₁, h₂, h₃, h₄⟩, rfl⟩
        exact ⟨_, ⟨h₁, rfl⟩, _, ⟨h₂, rfl⟩, _, ⟨h₃, rfl⟩, _, ⟨h₄, rfl⟩, rfl⟩

theorem withMapping_eq_ok_iff {base s : Settings} {data : List (Value × Value)} :
    base.withMapping data = .ok s ↔ FileSound data ∧ base.replace (fileFields data) = .ok s := by
  refine (bind_replace_eq_ok_iff fun _ => mappingChanges_eq_ok_iff).trans ?_
  constructor
  · rintro ⟨⟨hsections, -⟩, hs⟩
    refine ⟨⟨fun name hname => exists_sectionOf?_iff.mp (hsections name hname), fun b => ?_⟩, hs⟩
    rw [← fileFields_budget]
    exact exists_replace_iff.mp ⟨s, hs⟩ b
  · rintro ⟨h, hs⟩
    exact ⟨⟨fun name hname => exists_sectionOf?_iff.mpr (h.sections name hname),
      fun b => (h.budgets b).whole⟩, hs⟩

/-! ### The environment -/

/-- What a variable gives for a budget. -/
def budgetIn (environ : List (String × String)) (name : String) : Option Value :=
  (setting? environ name).bind fun raw => (Text.readInt? raw).map .int

/-- What the environment gives for the flag. -/
def flagIn (environ : List (String × String)) : Option Value :=
  (setting? environ "PROVER_DEDUPE_STATES").map fun raw => .bool (isOn raw)

/-- The changes that the environment stands for. -/
def environmentFields (environ : List (String × String)) : Fields where
  maxLines := (budgetIn environ "PROVER_MAX_LINE_LENGTH").getD .null
  iterations := (budgetIn environ "PROVER_ITERATIONS").getD .null
  subMaxLines := (budgetIn environ "PROVER_SUB_MAX_LINE_LENGTH").getD .null
  subIterations := (budgetIn environ "PROVER_SUB_ITERATIONS").getD .null
  dedupe := (flagIn environ).getD .null

theorem environmentFields_budget (environ : List (String × String)) (b : Budget) :
    (environmentFields environ).budget b = (budgetIn environ b.variableName).getD .null := by
  cases b <;> rfl

/-- The environment has no fault: a variable for a budget is missing or empty, or
holds a positive integer. -/
def EnvironmentSound (environ : List (String × String)) : Prop :=
  ∀ b : Budget, ∀ raw ∈ setting? environ b.variableName, ∃ n ∈ Text.readInt? raw, 0 < n

instance (environ : List (String × String)) : Decidable (EnvironmentSound environ) :=
  inferInstanceAs (Decidable (∀ _, _))

/-- A variable is read as what it gives, if it gives something whenever it is set. -/
theorem integerVariable_eq_ok_iff {environ : List (String × String)} {name : String} {v : Value} :
    integerVariable environ name = .ok v ↔
      (∀ raw ∈ setting? environ name, ∃ n, n ∈ Text.readInt? raw) ∧
        v = (budgetIn environ name).getD .null := by
  rw [integerVariable, budgetIn]
  rcases setting? environ name with - | raw
  · simp [eq_comm]
  · rcases hraw : Text.readInt? raw with - | n
    · simp [hraw]
    · simp [hraw, eq_comm]

theorem flagVariable_eq (environ : List (String × String)) :
    flagVariable environ "PROVER_DEDUPE_STATES" = (flagIn environ).getD .null := by
  rw [flagVariable, flagIn]
  cases setting? environ "PROVER_DEDUPE_STATES" <;> rfl

/-- The changes that are read from the environment are those it stands for. -/
theorem environmentChanges_eq_ok_iff {environ : List (String × String)} {changes : Fields} :
    environmentChanges environ = .ok changes ↔
      (∀ b : Budget, ∀ raw ∈ setting? environ b.variableName, ∃ n, n ∈ Text.readInt? raw) ∧
        changes = environmentFields environ := by
  rw [environmentChanges, Budget.forall_iff]
  simp only [bind_eq_ok_iff, pure_eq_ok_iff, integerVariable_eq_ok_iff, flagVariable_eq]
  constructor
  · rintro ⟨_, ⟨h₁, rfl⟩, _, ⟨h₂, rfl⟩, _, ⟨h₃, rfl⟩, _, ⟨h₄, rfl⟩, rfl⟩
    exact ⟨⟨h₁, h₂, h₃, h₄⟩, rfl⟩
  · rintro ⟨⟨h₁, h₂, h₃, h₄⟩, rfl⟩
    exact ⟨_, ⟨h₁, rfl⟩, _, ⟨h₂, rfl⟩, _, ⟨h₃, rfl⟩, _, ⟨h₄, rfl⟩, rfl⟩

theorem withEnvironment_eq_ok_iff {base s : Settings} {environ : List (String × String)} :
    base.withEnvironment environ = .ok s ↔
      EnvironmentSound environ ∧ base.replace (environmentFields environ) = .ok s := by
  refine (bind_replace_eq_ok_iff fun _ => environmentChanges_eq_ok_iff).trans
    (and_congr_left fun hs => forall_congr' fun b => forall₂_congr fun raw hraw => ?_)
  -- an integer that is read has to suit the budget that it replaces
  have hsuits := exists_replace_iff.mp ⟨s, hs⟩ b
  rw [environmentFields_budget, budgetIn, Option.mem_def.mp hraw, Option.bind_some] at hsuits
  constructor
  · rintro ⟨n, hn⟩
    rw [Option.mem_def.mp hn] at hsuits
    exact ⟨n, hn, hsuits⟩
  · rintro ⟨n, hn, -⟩
    exact ⟨n, hn⟩

theorem suits_environmentFields {environ : List (String × String)} (h : EnvironmentSound environ)
    (b : Budget) : ((environmentFields environ).budget b).Suits := by
  rw [environmentFields_budget, budgetIn]
  rcases hraw : setting? environ b.variableName with - | raw
  · trivial
  · obtain ⟨n, hn, hpos⟩ := h b raw hraw
    rw [Option.bind_some, Option.mem_def.mp hn]
    exact hpos

/-! ### All layers -/

/-- The settings with the data of a file, the environment and changes laid over
them. -/
def layered (base : Settings) (data : List (Value × Value)) (environ : List (String × String))
    (changes : Fields) : Except SettingsError Settings := do
  let s ← base.withMapping data
  let s ← s.withEnvironment environ
  s.replace changes

/-- What the layers leave in a budget: the last value that is given. -/
def resolvedBudget (base : Settings) (data : List (Value × Value))
    (environ : List (String × String)) (changes : Fields) (b : Budget) : Value :=
  ((changes.budget b).given?.or
    ((budgetIn environ b.variableName).or (b.inFile data).given?)).getD (.int (base.budget b))

/-- What the layers leave in the flag: the last value that is given. -/
def resolvedFlag (base : Settings) (data : List (Value × Value))
    (environ : List (String × String)) (changes : Fields) : Value :=
  (changes.dedupe.given?.or ((flagIn environ).or (flagInFile data))).getD base.dedupe

section Layered

variable {base s : Settings} {data : List (Value × Value)} {environ : List (String × String)}
  {changes : Fields} {read : String → Option Path.Entry} {document : String → Option Value}

theorem exists_layered_iff :
    (∃ s, base.layered data environ changes = .ok s) ↔
      FileSound data ∧ EnvironmentSound environ ∧ ∀ b, (changes.budget b).Suits := by
  simp only [layered, bind_eq_ok_iff, withMapping_eq_ok_iff, withEnvironment_eq_ok_iff]
  constructor
  · rintro ⟨s, s₁, ⟨hfile, -⟩, s₂, ⟨henviron, -⟩, hs⟩
    exact ⟨hfile, henviron, exists_replace_iff.mp ⟨s, hs⟩⟩
  · rintro ⟨hfile, henviron, hchanges⟩
    obtain ⟨s₁, h₁⟩ : ∃ s, base.replace (fileFields data) = .ok s :=
      exists_replace_iff.mpr fun b => fileFields_budget data b ▸ hfile.budgets b
    obtain ⟨s₂, h₂⟩ : ∃ s, s₁.replace (environmentFields environ) = .ok s :=
      exists_replace_iff.mpr (suits_environmentFields henviron)
    obtain ⟨s, hs⟩ : ∃ s, s₂.replace changes = .ok s := exists_replace_iff.mpr hchanges
    exact ⟨s, s₁, ⟨hfile, h₁⟩, s₂, ⟨henviron, h₂⟩, hs⟩

theorem fields_of_layered (h : base.layered data environ changes = .ok s) :
    s.fields
      = ((base.fields.overlaid (fileFields data)).overlaid (environmentFields environ)).overlaid
          changes := by
  simp only [layered, bind_eq_ok_iff, withMapping_eq_ok_iff, withEnvironment_eq_ok_iff,
    replace_eq_ok_iff] at h
  obtain ⟨s₁, ⟨-, h₁⟩, s₂, ⟨-, h₂⟩, hs⟩ := h
  rw [hs, h₂, h₁]

theorem given?_getD_null {o : Option Value} (h : o ≠ some .null) : (o.getD .null).given? = o := by
  rcases o with - | v
  · rfl
  · cases v with
    | null => exact absurd rfl h
    | bool _ | int _ | float _ | nan | text _ | list _ | mapping _ | other _ _ => rfl

theorem budget_of_layered (h : base.layered data environ changes = .ok s) (b : Budget) :
    .int (s.budget b) = resolvedBudget base data environ changes b := by
  have hvariable : budgetIn environ b.variableName ≠ some .null := by
    simp [budgetIn, Option.bind_eq_some_iff]
  have hb := congrArg (Fields.budget · b) (fields_of_layered h)
  simp only [fields_budget, Fields.overlaid_budget, fileFields_budget, environmentFields_budget,
    given?_getD_null hvariable] at hb
  rw [hb, resolvedBudget, Option.getD_or, Option.getD_or]

theorem dedupe_of_layered (h : base.layered data environ changes = .ok s) :
    s.dedupe = resolvedFlag base data environ changes := by
  have hvariable : flagIn environ ≠ some .null := by simp [flagIn]
  have hfile : flagInFile data ≠ some .null := by simp [flagInFile]
  have hdedupe := congrArg Fields.dedupe (fields_of_layered h)
  simp only [fields, Fields.overlaid, fileFields, environmentFields, given?_getD_null hvariable,
    given?_getD_null hfile] at hdedupe
  rw [hdedupe, resolvedFlag, Option.getD_or, Option.getD_or]

/-! ### The command -/

/-- The data of the settings file that is looked for at a path or, without one, at
the usual place, where it may be missing. -/
def loadedData? (read : String → Option Path.Entry) (document : String → Option Value)
    (path : Option String) (environ : List (String × String)) : Option (List (Value × Value)) :=
  match read (path.getD (defaultPath environ)) with
  | some (.file text) => (document text).bind sectionOf?
  | some .directory => none
  | none => if path.isNone then some [] else none

theorem withMapping_nil (base : Settings) : base.withMapping [] = .ok base :=
  replace_eq_ok_iff.mpr rfl

theorem withFile_eq {path text : String} (hfile : read path = some (.file text))
    (htext : (document text).bind sectionOf? = some data) :
    base.withFile read document path = base.withMapping data := by
  obtain ⟨v, hv, hdata⟩ := Option.bind_eq_some_iff.mp htext
  rw [withFile, hfile]
  simp only [hv]
  rcases sectionOf?_cases hdata with rfl | ⟨hmapping, hfalse, rfl⟩
  · rfl
  · cases v with
    | mapping _ => cases hmapping
    | null | bool _ | int _ | float _ | nan | text _ | list _ | other _ _ =>
      exact if_neg (Bool.eq_false_iff.mp hfalse)

theorem load_eq {path : Option String} (h : loadedData? read document path environ = some data) :
    base.load read document path environ
      = base.withMapping data >>= (·.withEnvironment environ) := by
  unfold load
  rw [loadedData?] at h
  rcases hentry : read (path.getD (defaultPath environ)) with - | (- | text) <;> rw [hentry] at h
  · rcases path with - | path
    · obtain rfl := Option.some.inj h
      rw [Option.getD_none] at hentry
      simp only [hentry, withMapping_nil]
      rfl
    · cases h
  · cases h
  · rcases path with - | path
    · rw [Option.getD_none] at hentry
      simp only [withFile_eq hentry h, hentry, Option.isSome_some, if_true]
    · rw [Option.getD_some] at hentry
      simp only [withFile_eq hentry h]

end Layered

end Settings

open CommandLine Settings

/-- **Settings are resolved field by field, and no layer hides a fault.**  With the
data of a file, the environment and changes laid over them, settings come about
exactly when none of the three has a fault.  Each field is then what the changes
give for it, or else the environment, or else the file, or else what it was.
Whatever the reader of documents, settings are loaded in this way from the data
that it gives for the file that is found, and the command adds its options to
them. -/
theorem layered_resolves (data : List (Value × Value)) (environ : List (String × String)) :
    (∀ (base : Settings) (changes : Fields),
      ((∃ s, base.layered data environ changes = .ok s) ↔
        FileSound data ∧ EnvironmentSound environ ∧ ∀ b, (changes.budget b).Suits) ∧
      ∀ s, base.layered data environ changes = .ok s →
        (∀ b, .int (s.budget b) = resolvedBudget base data environ changes b) ∧
        s.dedupe = resolvedFlag base data environ changes) ∧
    ∀ (read : String → Option Path.Entry) (document : String → Option Value)
      (path : Option String), loadedData? read document path environ = some data →
      (∀ (base : Settings) (changes : Fields),
        base.load read document path environ >>= (·.replace changes)
          = base.layered data environ changes) ∧
      ∀ (o : Options) (input : String),
        o.settings path ⟨environ, read, document, input⟩
          = Settings.roomy.layered data environ o.changes := by
  refine ⟨fun base changes => ⟨exists_layered_iff, fun s hs => ?_⟩, ?_⟩
  · exact ⟨budget_of_layered hs, dedupe_of_layered hs⟩
  · intro read document path hdata
    have hload : ∀ (base : Settings) (changes : Fields),
        base.load read document path environ >>= (·.replace changes)
          = base.layered data environ changes := by
      intro base changes
      rw [load_eq hdata, bind_assoc]
      rfl
    exact ⟨hload, fun o _ => hload Settings.roomy o.changes⟩

/-- Data of a file.  The flag is a date, and the section for nested searches is a
value of another kind that counts as false. -/
def mixedData : List (Value × Value) :=
  [(.text "search", .mapping [(.text "max_line_length", .int 12), (.text "iterations", .int 40),
    (.text "deduplicate_states", .other "2001-12-14" true)]), (.text "sub_search", .other "" false)]

/-- An environment in which one of the variables is empty. -/
def mixedEnviron : List (String × String) :=
  [("PROVER_MAX_LINE_LENGTH", " 9 "), ("PROVER_ITERATIONS", ""), ("PROVER_DEDUPE_STATES", "No")]

/-- Each field comes from the last layer that gives it, whatever the reader that
gives `mixedData` for a text.  A variable that is zero and a date in the place of a
budget are faults, even if an option takes their place. -/
theorem layered_resolves_mixed :
    (∀ (document : String → Option Value) (text : String),
      document text = some (.mapping mixedData) →
      ∃ s, Options.settings { subIterations := .value 7 } none
          ⟨mixedEnviron, fun _ => some (.file text), document, ""⟩ = .ok s ∧
        s.fields = ⟨.int 9, .int 40, .int 15, .int 7, .bool false⟩) ∧
    (¬ ∃ s, Settings.roomy.layered mixedData [("PROVER_ITERATIONS", "0")]
      (Options.changes { iterations := .value 7 }) = .ok s) ∧
    ¬ ∃ s, Settings.roomy.layered
      [(.text "search", .mapping [(.text "iterations", .other "2001-12-14" true)])] []
      (Options.changes { iterations := .value 7 }) = .ok s := by
  refine ⟨fun document text hdocument => ?_, fun h => ?_, fun h => ?_⟩
  · have hfile : FileSound mixedData := ⟨by decide +kernel, by decide +kernel⟩
    have hdata : loadedData? (fun _ => some (.file text)) document none mixedEnviron
        = some mixedData := by
      show (document text).bind sectionOf? = some mixedData
      rw [hdocument]
      rfl
    obtain ⟨hlayered, hcommand⟩ := layered_resolves mixedData mixedEnviron
    obtain ⟨hexists, hfields⟩ :=
      hlayered Settings.roomy (Options.changes { subIterations := .value 7 })
    obtain ⟨s, hs⟩ := hexists.mpr ⟨hfile, by decide +kernel, by decide⟩
    obtain ⟨hbudgets, hdedupe⟩ := hfields s hs
    refine ⟨s, ((hcommand _ document none hdata).2 _ "").trans hs, Fields.ext_budget ?_ ?_⟩
    · intro b
      rw [fields_budget, hbudgets]
      revert b
      decide +kernel
    · exact hdedupe.trans (by decide +kernel)
  · obtain ⟨hexists, -⟩ := (layered_resolves mixedData [("PROVER_ITERATIONS", "0")]).1
      Settings.roomy (Options.changes { iterations := .value 7 })
    exact absurd (hexists.mp h).2.1 (by decide +kernel)
  · obtain ⟨hexists, -⟩ := (layered_resolves _ []).1
      Settings.roomy (Options.changes { iterations := .value 7 })
    -- a date suits no budget
    exact (hexists.mp h).1.budgets .iterations

end NaturalDeduction
