/-
LocaleEditor.Number.Double — binary floating point numbers with 53 bits.

A number is m · 2^e with m below 2^53 and e from −1074 to 971, and m
has all its 53 bits unless e is the least exponent. Each operation
takes the exact result and rounds it to the nearest such number, a tie
to the even one. The sign is kept elsewhere.
-/
namespace LocaleEditor.Number

/-- The number `significand · 2 ^ exponent`. -/
structure Double where
  significand : Nat
  exponent : Int
  deriving DecidableEq, Repr

namespace Double

/-! ## 1. Rounding -/

/-- The least exponent. -/
def leastExponent : Int := -1074

/-- The greatest exponent. -/
def greatestExponent : Int := 971

def zero : Double := ⟨0, leastExponent⟩

/-- The whole number nearest to a quotient, of two the even one. -/
def roundQuotient (num den : Nat) : Nat :=
  let q := num / den
  let r := num % den
  if 2 * r < den then q
  else if den < 2 * r then q + 1
  else if q % 2 = 0 then q else q + 1

/-- Numerator and denominator of `num / den · 2 ^ -e`. -/
def scaleDown (num den : Nat) (e : Int) : Nat × Nat :=
  if 0 ≤ e then (num, den * Nat.pow 2 e.toNat) else (num * Nat.pow 2 (-e).toNat, den)

/-- The greatest `k` with `2 ^ k ≤ num / den`. -/
def floorLog (num den : Nat) : Int :=
  let k : Int := (num.log2 : Int) - den.log2
  let (n, d) := scaleDown num den k
  if n < d then k - 1 else k

/-- The number nearest to a quotient, unless that is beyond the greatest one. -/
def nearest? (num den : Nat) : Option Double :=
  if num = 0 then some zero
  else
    let e := max (floorLog num den - 52) leastExponent
    let (n, d) := scaleDown num den e
    let m := roundQuotient n d
    let rounded : Double := if m = Nat.pow 2 53 then ⟨Nat.pow 2 52, e + 1⟩ else ⟨m, e⟩
    if greatestExponent < rounded.exponent then none else some rounded

/-! ## 2. Arithmetic -/

/-- Numerator and denominator. -/
def ratio (x : Double) : Nat × Nat := scaleDown x.significand 1 (-x.exponent)

def mul? (x y : Double) : Option Double :=
  let (a, b) := x.ratio
  let (c, d) := y.ratio
  nearest? (a * c) (b * d)

def div? (x y : Double) : Option Double :=
  let (a, b) := x.ratio
  let (c, d) := y.ratio
  nearest? (a * d) (b * c)

/-- The greatest power of ten in one factor. -/
def greatestPower : Nat := 308

/-- `x · 10 ^ e` by one multiplication or division, after divisions by the greatest power of ten
while `e` is below its negative; at most as many as given. -/
def scaleTen? : Nat → Double → Int → Option Double
  | 0, _, _ => none
  | n + 1, x, e =>
    if e.natAbs ≤ greatestPower then
      (nearest? (Nat.pow 10 e.natAbs) 1).bind fun power =>
        if 0 ≤ e then x.mul? power else x.div? power
    else if x.significand = 0 then some x
    else if 0 ≤ e then none
    else
      (nearest? (Nat.pow 10 greatestPower) 1).bind fun power =>
        (x.div? power).bind fun y => scaleTen? n y (e + greatestPower)

/-- The value of a decimal with digits `digits` and exponent `e`, unless it is too great. Since
the digits count for less than 2^64, three divisions lead to zero. -/
def ofDecimal? (digits : Nat) (e : Int) : Option Double :=
  (nearest? digits 1).bind fun x => scaleTen? 5 x e

end Double

end LocaleEditor.Number
