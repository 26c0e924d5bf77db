import ControllerHooks.Binary64.Basic

/-!
# The shortest decimal of a binary64 number

A decimal reads back as a number when it lies between the midpoints to the number's neighbours.
`Decimal.shortest` is the shortest such decimal, and of those with the fewest digits the nearest.

* `Decimal.text` writes it: positional when the first digit stands between `10 ^ -5` and
  `10 ^ 15`, else with an exponent, which carries its sign.
-/

namespace ControllerHooks

/-- `digits * 10 ^ exponent`. -/
structure Decimal where
  digits : Nat
  exponent : Int
  deriving DecidableEq

namespace Decimal

/-- Multiply a fraction by a power of ten. -/
def shiftTen (num den : Nat) (e : Int) : Nat × Nat :=
  if 0 ≤ e then (num * Nat.pow 10 e.toNat, den) else (num, den * Nat.pow 10 (-e).toNat)

def countDigits (n : Nat) : Nat := (Nat.toDigits 10 n).length

/-- The exponent of the first digit of `num / den`. -/
def leadingExponent (num den : Nat) : Int :=
  let low : Int := (countDigits num : Int) - countDigits den - 1
  let (n, d) := shiftTen num den (-(low + 1))
  if d ≤ n then low + 1 else low

/-- The midpoints to the neighbours of a magnitude, as quarters of its unit in the last place. -/
def neighbours (magnitude : Nat) : Nat × Nat :=
  let m := Binary64.mantissa magnitude
  let narrow := m = Nat.pow 2 52 ∧ Nat.pow 2 53 ≤ magnitude
  (4 * m - (if narrow then 1 else 2), 4 * m + 2)

/-- Whether `d * 10 ^ e` reads back as the magnitude. -/
def readsBack (magnitude d : Nat) (e : Int) : Bool :=
  let (lo, hi) := neighbours magnitude
  let (n, den) := shiftTen d 1 e
  let (unit, unitDen) := Binary64.shift 1 4 (Binary64.exponent magnitude)
  let x := n * unitDen
  let low := lo * unit * den
  let high := hi * unit * den
  if Binary64.mantissa magnitude % 2 = 0 then low ≤ x && x ≤ high else low < x && x < high

/-- The better of the two grid points around a magnitude on the grid `10 ^ e`, if one reads back. -/
def onGrid (magnitude : Nat) (e : Int) : Option Nat :=
  let (num, den) := Binary64.ratio magnitude
  let (n, d) := shiftTen num den (-e)
  let below := n / d
  let r := n % d
  let lower := readsBack magnitude below e
  let upper := readsBack magnitude (below + 1) e
  if lower && upper then
    some (if 2 * r < d || (2 * r = d && below % 2 = 0) then below else below + 1)
  else if lower then some below
  else if upper then some (below + 1)
  else none

/-- Drop the zeros at the end of the digits. -/
def trimZeros : (fuel : Nat) → Decimal → Decimal
  | 0, x => x
  | fuel + 1, x =>
    if x.digits ≠ 0 ∧ x.digits % 10 = 0 then trimZeros fuel ⟨x.digits / 10, x.exponent + 1⟩ else x

/-- The first grid with a point that reads back, from the coarsest on. -/
def search (magnitude : Nat) (leading : Int) : (places : Nat) → Decimal
  | 0 => ⟨0, 0⟩
  | places + 1 =>
    let e := leading - (16 - places : Nat)
    match onGrid magnitude e with
    | some d => trimZeros 20 ⟨d, e⟩
    | none => search magnitude leading places

def shortest (magnitude : Nat) : Decimal :=
  if magnitude = 0 then ⟨0, 0⟩
  else
    let (num, den) := Binary64.ratio magnitude
    search magnitude (leadingExponent num den) 17

/-- Digits with a point after the first `n`. -/
def pointed (digits : List Char) (n : Nat) : List Char :=
  digits.take n ++ '.' :: digits.drop n

/-- A number always shows a point or an exponent. -/
def text (x : Decimal) : List Char :=
  let digits := Nat.toDigits 10 x.digits
  let leading : Int := x.exponent + digits.length - 1
  if 0 ≤ x.exponent ∧ leading ≤ 15 then
    digits ++ List.replicate x.exponent.toNat '0' ++ ['.', '0']
  else if 0 ≤ leading ∧ leading ≤ 15 then pointed digits (leading + 1).toNat
  else if -5 ≤ leading ∧ leading < 0 then
    '0' :: '.' :: List.replicate (-leading - 1).toNat '0' ++ digits
  else
    let mantissa := if digits.length = 1 then digits else pointed digits 1
    let sign := if 0 ≤ leading then '+' else '-'
    mantissa ++ 'e' :: sign :: Nat.toDigits 10 leading.natAbs

end Decimal

namespace Binary64

def text (x : Binary64) : List Char :=
  let digits := (Decimal.shortest x.magnitude).text
  if x.negative then '-' :: digits else digits

end Binary64

end ControllerHooks
