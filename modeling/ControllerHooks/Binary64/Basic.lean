/-!
# Binary64 numbers

A finite binary64 number is its sign and its `magnitude`: its place among the nonnegative numbers
of the format, counted from zero. The arithmetic is exact on natural numbers and rounds once.

* `nearest num den` is the magnitude nearest to `num / den`, ties to even, or none beyond the range.
* `scaled` multiplies or divides a rounded significand by rounded powers of ten: how a decimal
  text becomes a number here. Each step rounds.
-/

namespace ControllerHooks

structure Binary64 where
  negative : Bool
  magnitude : Nat
  deriving DecidableEq

namespace Binary64

/-- Magnitudes below this are finite. -/
def infinity : Nat := 2047 * Nat.pow 2 52

def zero : Binary64 := ⟨false, 0⟩

/-- The magnitude is `mantissa m * 2 ^ (exponent m)`. -/
def mantissa (magnitude : Nat) : Nat :=
  if magnitude < Nat.pow 2 52 then magnitude else Nat.pow 2 52 + magnitude % Nat.pow 2 52

def exponent (magnitude : Nat) : Int :=
  if magnitude < Nat.pow 2 52 then -1074 else (magnitude / Nat.pow 2 52 : Nat) - 1075

/-- Multiply a fraction by a power of two. -/
def shift (num den : Nat) (by2 : Int) : Nat × Nat :=
  if 0 ≤ by2 then (num * Nat.pow 2 by2.toNat, den) else (num, den * Nat.pow 2 (-by2).toNat)

/-- A magnitude as a fraction. -/
def ratio (magnitude : Nat) : Nat × Nat := shift (mantissa magnitude) 1 (exponent magnitude)

/-- The quotient rounded to the nearest natural number, a half to the even one. -/
def roundDiv (num den : Nat) : Nat :=
  let q := num / den
  let r := num % den
  if 2 * r < den then q
  else if den < 2 * r then q + 1
  else q + q % 2

/-- The exponent of the grid on which `num / den` has 53 bits, or the finest one. -/
def gridExponent (num den : Nat) : Int :=
  let low : Int := Nat.log2 num - Nat.log2 den - 53
  let (n, d) := shift num den (-low)
  let fitting := if n / d < Nat.pow 2 53 then low else low + 1
  max fitting (-1074)

/-- The magnitude nearest to `num / den`. -/
def nearest (num den : Nat) : Option Nat :=
  if num = 0 then some 0
  else
    let q := gridExponent num den
    let (n, d) := shift num den (-q)
    let magnitude := (q + 1074).toNat * Nat.pow 2 52 + roundDiv n d
    if magnitude < infinity then some magnitude else none

/-- The magnitude nearest to `10 ^ e`. -/
def powerOfTen (e : Nat) : Nat := (nearest (Nat.pow 10 e) 1).getD 0

def multiply (a b : Nat) : Option Nat :=
  nearest ((ratio a).1 * (ratio b).1) ((ratio a).2 * (ratio b).2)

def divide (a b : Nat) : Option Nat :=
  nearest ((ratio a).1 * (ratio b).2) ((ratio a).2 * (ratio b).1)

/-- A magnitude times `10 ^ e`, in steps of at most 308 decimal places. -/
def scale (magnitude : Nat) (e : Int) : Option Nat :=
  if magnitude = 0 then some 0
  else if 0 ≤ e then
    if e ≤ 308 then multiply magnitude (powerOfTen e.toNat) else none
  else if -308 ≤ e then divide magnitude (powerOfTen (-e).toNat)
  else (divide magnitude (powerOfTen 308)).bind fun m => scale m (e + 308)
termination_by (-e).toNat

/-- The number written with this significand and decimal exponent, if it is in range. -/
def scaled (negative : Bool) (significand : Nat) (e : Int) : Option Binary64 :=
  ((nearest significand 1).bind fun m => scale m e).map fun m => ⟨negative, m⟩

/-- The two zeros as one. -/
def unsignedZero (x : Binary64) : Binary64 := if x.magnitude = 0 then zero else x

end Binary64

end ControllerHooks
