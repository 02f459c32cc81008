/-
LocaleEditor.Number.Shortest — the fewest digits that read back.

A number stands for all reals that round to it, the ends of that
interval included when its significand is even. The text has as few
digits as a decimal inside the interval can have, and of those decimals
it is the nearest. Numbers from 10^-5 up to 10^16 are written without an
exponent and with at least one digit after the point.
-/
import LocaleEditor.Number.Double

namespace LocaleEditor.Number

/-! ## 1. Digits -/

/-- The reals that round to a number, all four in units of `1 / den`: the ends, the number itself,
and whether the ends belong to them. -/
structure Interval where
  low : Nat
  value : Nat
  high : Nat
  den : Nat
  closed : Bool
  deriving Repr

/-- The interval of a number. Below a power of two the numbers lie twice as close. -/
def Double.interval (x : Double) : Interval :=
  let m := x.significand
  let below := if m = Nat.pow 2 52 ∧ Double.leastExponent < x.exponent then 1 else 2
  let (unit, den) := Double.scaleDown 1 1 (-x.exponent)
  ⟨(4 * m - below) * unit, 4 * m * unit, (4 * m + 2) * unit, 4 * den, m % 2 = 0⟩

/-- Whether the decimal `digits · 10 ^ e` lies in an interval. -/
def Interval.holds (i : Interval) (digits : Nat) (e : Int) : Bool :=
  let up := digits * Nat.pow 10 e.toNat * i.den
  let down := Nat.pow 10 (-e).toNat
  if i.closed then i.low * down ≤ up && up ≤ i.high * down
  else i.low * down < up && up < i.high * down

/-- The least `k` from `start` downwards with `value < 10 ^ k`, for at most as many rounds as
given. -/
def magnitudeWithin (i : Interval) : Nat → Int → Int
  | 0, k => k
  | n + 1, k =>
    let lower := k - 1
    if i.value * Nat.pow 10 (-lower).toNat < Nat.pow 10 lower.toNat * i.den then
      magnitudeWithin i n lower
    else k

/-- The least `k` with `value < 10 ^ k`. Every number is below 10^309 and above 10^-324. -/
def Interval.magnitude (i : Interval) : Int := magnitudeWithin i 640 310

/-- The decimal with `n` digits in the interval that is nearest to its value, of two the even
one. -/
def Interval.decimal? (i : Interval) (magnitude : Int) (n : Nat) : Option (Nat × Int) :=
  let e := magnitude - n
  let num := i.value * Nat.pow 10 (-e).toNat
  let den := i.den * Nat.pow 10 e.toNat
  let below := num / den
  match i.holds below e, i.holds (below + 1) e with
  | true, true => some (Double.roundQuotient num den, e)
  | true, false => some (below, e)
  | false, true => some (below + 1, e)
  | false, false => none

/-- The first decimal of `n` or more digits in the interval; 17 digits always suffice. -/
def Interval.shortestFrom (i : Interval) (magnitude : Int) : Nat → Nat → Nat × Int
  | 0, n => (i.value * Nat.pow 10 n / i.den, -n)
  | rounds + 1, n =>
    match i.decimal? magnitude n with
    | some d => d
    | none => shortestFrom i magnitude rounds (n + 1)

/-- The shortest decimal that reads back as a number other than zero. -/
def Double.shortest (x : Double) : Nat × Int :=
  let i := x.interval
  i.shortestFrom i.magnitude 17 1

/-! ## 2. Text -/

/-- The digits of a number, without zeros at the end. -/
def significantDigits (n : Nat) : List Char :=
  ((Nat.toDigits 10 n).reverse.dropWhile (· = '0')).reverse

/-- The text of the decimal that has the digits `ds` after the point, times `10 ^ k`. -/
def decimalText (ds : List Char) (k : Int) : List Char :=
  if 0 < k ∧ k ≤ 16 then
    let whole := k.toNat
    let fraction := ds.drop whole
    ds.take whole ++ List.replicate (whole - ds.length) '0' ++ ['.']
      ++ if fraction.isEmpty then ['0'] else fraction
  else if -5 < k ∧ k ≤ 0 then
    '0' :: '.' :: List.replicate (-k).toNat '0' ++ ds
  else
    let e := k - 1
    let fraction := ds.drop 1
    ds.take 1 ++ (if fraction.isEmpty then [] else '.' :: fraction)
      ++ 'e' :: (if 0 ≤ e then '+' else '-') :: Nat.toDigits 10 e.natAbs

/-- The text of a number. -/
def Double.text (x : Double) : List Char :=
  if x.significand = 0 then ['0', '.', '0']
  else
    let (digits, e) := x.shortest
    decimalText (significantDigits digits) (e + (Nat.toDigits 10 digits).length)

end LocaleEditor.Number
