/-
Decimal fractions with binary precision.

A decimal fraction is kept with the precision of a 64-bit binary floating
point number: it stands for the nearest number `m * 2^k` with `m < 2^53`, and
of two that are equally near, for the one with the even `m`.  It is printed
with the fewest digits that still stand for that number, and of those, the
ones nearest to it.

Numbers from `10^-4` on and below `10^16` are printed by place value, with at
least one digit after the point; others with one digit before the point and
a power of ten.

Numbers that are too large for that precision stand for infinity, and numbers
that are too small for zero.
-/

namespace NaturalDeduction

/-- The number `digits * 10^exponent`, negated if `negative`. -/
structure Decimal where
  negative : Bool
  digits : Nat
  exponent : Int
deriving DecidableEq, Repr

namespace Decimal

/-! ### Rounding to binary -/

/-- The positive number `mantissa * 2^exponent`. -/
structure Binary where
  mantissa : Nat
  exponent : Int
deriving DecidableEq, Repr

/-- The quotient `p / q`, rounded to the nearest natural number, a half to the
even one. -/
def roundDiv (p q : Nat) : Nat :=
  let floor := p / q
  let twice := 2 * (p % q)
  if q < twice ∨ (q = twice ∧ floor % 2 = 1) then floor + 1 else floor

/-- The binary number nearest to `p / q`.  Its mantissa has 53 bits, except
where the exponent would fall below -1074. -/
def nearest (p q : Nat) : Binary :=
  let scaled (k : Int) : Nat × Nat := (p * Nat.pow 2 (-k).toNat, q * Nat.pow 2 k.toNat)
  let k : Int := (Nat.log2 p : Int) - Nat.log2 q - 53
  let k := if Nat.pow 2 53 ≤ (scaled k).1 / (scaled k).2 then k + 1 else k
  let k := max k (-1074)
  let m := roundDiv (scaled k).1 (scaled k).2
  if m = Nat.pow 2 53 then ⟨Nat.pow 2 52, k + 1⟩ else ⟨m, k⟩

/-- The fraction `n * base^e` as numerator and denominator. -/
def fraction (n base : Nat) (e : Int) : Nat × Nat :=
  (n * Nat.pow base e.toNat, Nat.pow base (-e).toNat)

/-- The binary number that a decimal stands for, without its sign. -/
def toBinary (d : Decimal) : Binary :=
  let (p, q) := fraction d.digits 10 d.exponent
  nearest p q

/-- The power of ten that a decimal, without its sign, lies below. -/
def order (d : Decimal) : Int :=
  d.exponent + (Nat.toDigits 10 d.digits).length

/-- Whether a decimal stands for zero.  The order is looked at first, since
powers of ten far out of range are costly. -/
def isZero (d : Decimal) : Bool :=
  d.digits = 0 || d.order < -330 || (d.order < 330 && d.toBinary.mantissa = 0)

/-- Whether a decimal is too large for a binary number. -/
def isInfinite (d : Decimal) : Bool :=
  !d.isZero && (330 < d.order || 971 < d.toBinary.exponent)

/-- A number that is too large for a binary number. -/
def infinite (negative : Bool) : Decimal :=
  ⟨negative, 1, 400⟩

/-- The number that a decimal stands for, as a fraction in lowest terms.
Infinity has the denominator zero. -/
def exact (d : Decimal) : Int × Nat :=
  let sign : Int := if d.negative then -1 else 1
  if d.isZero then (0, 1)
  else if d.isInfinite then (sign, 0)
  else
    let b := d.toBinary
    let (p, q) := fraction b.mantissa 2 b.exponent
    (sign * (p / Nat.gcd p q : Nat), q / Nat.gcd p q)

/-! ### Fewest digits -/

/-- The exponent of the first decimal digit of the positive fraction
`p / q`. -/
def leadingExponent (p q : Nat) : Int :=
  if q ≤ p then ((Nat.toDigits 10 (p / q)).length : Int) - 1
  else
    match (List.range 400).find? fun j => q ≤ p * Nat.pow 10 j with
    | some j => -(j : Int)
    | none => -400

/-- The decimals with last digit at exponent `t` next to `p / q`, the nearer
one first. -/
def neighbours (p q : Nat) (t : Int) : List (Nat × Int) :=
  let (n, d) := (p * Nat.pow 10 (-t).toNat, q * Nat.pow 10 t.toNat)
  let near := roundDiv n d
  let floor := n / d
  if near = floor then [(floor, t), (floor + 1, t)] else [(floor + 1, t), (floor, t)]

/-- The decimal with the fewest digits that stands for the same number; a
number needs at most 17 of them. -/
def shortest (d : Decimal) : Decimal :=
  let b := d.toBinary
  let (p, q) := fraction b.mantissa 2 b.exponent
  let top := leadingExponent p q
  let candidates := (List.range 17).flatMap fun (i : Nat) => neighbours p q (top - i)
  match candidates.find? fun (n, t) => toBinary ⟨false, n, t⟩ = b with
  | some (n, t) => ⟨d.negative, n, t⟩
  | none => d

/-! ### Printing -/

/-- The digits with a point after `point` of them, filled up with zeros. -/
def positional (digits : List Char) (point : Int) : List Char :=
  if point ≤ 0 then
    '0' :: '.' :: (List.replicate (-point).toNat '0' ++ digits)
  else if digits.length ≤ point then
    digits ++ List.replicate (point.toNat - digits.length) '0' ++ ['.', '0']
  else
    digits.take point.toNat ++ '.' :: digits.drop point.toNat

/-- The digits with a point after the first and the power of ten `e`. -/
def scientific (digits : List Char) (e : Int) : List Char :=
  let fractional := if digits.length ≤ 1 then [] else '.' :: digits.drop 1
  let power := Nat.toDigits 10 e.natAbs
  let power := if power.length < 2 then '0' :: power else power
  digits.take 1 ++ fractional ++ ['e', if e < 0 then '-' else '+'] ++ power

/-- The printed form of a decimal. -/
def render (d : Decimal) : String :=
  let sign := if d.negative then "-" else ""
  if d.isZero then sign ++ "0.0"
  else if d.isInfinite then sign ++ "inf"
  else
    let s := d.shortest
    let digits := (Nat.toDigits 10 s.digits).reverse.dropWhile (· = '0') |>.reverse
    let top := s.exponent + (Nat.toDigits 10 s.digits).length - 1
    sign ++ String.ofList
      (if -4 ≤ top ∧ top < 16 then positional digits (top + 1) else scientific digits top)

end Decimal

end NaturalDeduction
