/-
Values of records and settings.

A value is what a settings file or a record may hold in a field: null, a truth
value, a number, text, a list, or a mapping whose keys are values.  Entries of
a mapping keep the order in which their keys first came.  Readers of documents
may know further kinds, such as dates; of a value of such a kind there is only
its printed form, and whether it counts as true.

Null, false, zero, and empty text, lists and mappings count as false; every
other value of the kinds that are known counts as true.

Among the keys of a mapping numbers are told apart by their amounts alone, and
a truth value has the amount zero or one.
-/
import NaturalDeduction.Text.Decimal
import NaturalDeduction.Text.Quoted

namespace NaturalDeduction

/-- A value of a record or a settings file. -/
inductive Value where
  | null
  | bool (b : Bool)
  | int (n : Int)
  | float (d : Decimal)
  /-- A float that is no number. -/
  | nan
  | text (s : String)
  | list (items : List Value)
  | mapping (entries : List (Value × Value))
  /-- A value of another kind. -/
  | other (printed : String) (truth : Bool)
deriving Repr, Inhabited

namespace Value

/-! ### Equality -/

mutual

/-- Whether two values are the same. -/
def same : Value → Value → Bool
  | null, null => true
  | bool a, bool b => a = b
  | int m, int n => m = n
  | float d, float e => d = e
  | nan, nan => true
  | text s, text t => s = t
  | list xs, list ys => sameItems xs ys
  | mapping xs, mapping ys => sameEntries xs ys
  | other s a, other t b => s = t && a = b
  | _, _ => false

/-- Whether two lists have the same items. -/
def sameItems : List Value → List Value → Bool
  | [], [] => true
  | x :: xs, y :: ys => same x y && sameItems xs ys
  | _, _ => false

/-- Whether two mappings have the same entries in the same order. -/
def sameEntries : List (Value × Value) → List (Value × Value) → Bool
  | [], [] => true
  | (k, x) :: xs, (l, y) :: ys => same k l && same x y && sameEntries xs ys
  | _, _ => false

end

mutual

theorem same_iff (a b : Value) : same a b = true ↔ a = b := by
  cases a with
  | null | bool _ | int _ | float _ | nan | text _ | other _ _ => cases b <;> simp [same]
  | list xs =>
    cases b with
    | list ys => simp [same, sameItems_iff xs ys]
    | _ => simp [same]
  | mapping xs =>
    cases b with
    | mapping ys => simp [same, sameEntries_iff xs ys]
    | _ => simp [same]

theorem sameItems_iff (xs ys : List Value) : sameItems xs ys = true ↔ xs = ys := by
  match xs, ys with
  | [], [] => simp [sameItems]
  | [], _ :: _ => simp [sameItems]
  | _ :: _, [] => simp [sameItems]
  | x :: xs, y :: ys => simp [sameItems, same_iff x y, sameItems_iff xs ys]

theorem sameEntries_iff (xs ys : List (Value × Value)) : sameEntries xs ys = true ↔ xs = ys := by
  match xs, ys with
  | [], [] => simp [sameEntries]
  | [], _ :: _ => simp [sameEntries]
  | _ :: _, [] => simp [sameEntries]
  | (k, x) :: xs, (l, y) :: ys =>
    simp [sameEntries, same_iff k l, same_iff x y, sameEntries_iff xs ys]

end

instance : DecidableEq Value := fun a b => decidable_of_iff (same a b = true) (same_iff a b)

/-! ### Truth and print -/

/-- Whether a value counts as true. -/
def truthy : Value → Bool
  | null => false
  | bool b => b
  | int n => n ≠ 0
  | float d => !d.isZero
  | nan => true
  | text s => s ≠ ""
  | list items => !items.isEmpty
  | mapping entries => !entries.isEmpty
  | other _ truth => truth

mutual

/-- The printed form of a value. -/
def render : Value → String
  | null => "None"
  | bool true => "True"
  | bool false => "False"
  | int n => toString n
  | float d => d.render
  | nan => "nan"
  | text s => Text.quote s
  | list items => "[" ++ ", ".intercalate (renderItems items) ++ "]"
  | mapping entries => "\x7b" ++ ", ".intercalate (renderEntries entries) ++ "\x7d"
  | other printed _ => printed

/-- The printed forms of the items of a list. -/
def renderItems : List Value → List String
  | [] => []
  | v :: rest => v.render :: renderItems rest

/-- The printed forms of the entries of a mapping. -/
def renderEntries : List (Value × Value) → List String
  | [] => []
  | (k, v) :: rest => (k.render ++ ": " ++ v.render) :: renderEntries rest

end

/-- The entry of a mapping under a key that is text. -/
def find? (entries : List (Value × Value)) (key : String) : Option Value :=
  (entries.find? fun (k, _) => k == text key).map (·.2)

/-- The amount of a number or a truth value, as a fraction in lowest terms. -/
def amount? : Value → Option (Int × Nat)
  | bool b => some (if b then 1 else 0, 1)
  | int n => some (n, 1)
  | float d => some d.exact
  | _ => none

/-- Whether two keys of a mapping are the same. -/
def sameKey (a b : Value) : Bool :=
  match a.amount?, b.amount? with
  | some m, some n => m = n
  | _, _ => a == b

/-- The entries with `key` set to `value`: a key that is there already keeps
its place. -/
def setEntry (entries : List (Value × Value)) (key value : Value) : List (Value × Value) :=
  if entries.any fun (k, _) => sameKey k key then
    entries.map fun (k, v) => if sameKey k key then (k, value) else (k, v)
  else entries ++ [(key, value)]

end Value

end NaturalDeduction
