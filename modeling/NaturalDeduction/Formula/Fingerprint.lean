/-
Fingerprints of formulas.

A fingerprint is a number that tells most formulas apart.  Collections of
formulas are sorted by it before they are compared.
-/
import NaturalDeduction.Formula.Basic

namespace NaturalDeduction

/-- A number that tells most formulas apart. -/
def Formula.fingerprint : Formula → Nat
  | var name => name.toList.foldl (fun h c => (31 * h + c.toNat) % 2147483647) 7
  | neg a => (33 * a.fingerprint + 1) % 2147483647
  | conj a b => (37 * a.fingerprint + 41 * b.fingerprint + 2) % 2147483647
  | disj a b => (43 * a.fingerprint + 47 * b.fingerprint + 3) % 2147483647
  | imp a b => (53 * a.fingerprint + 59 * b.fingerprint + 4) % 2147483647

end NaturalDeduction
