/-!
# Finite binary64 numbers

A finite double as an exact dyadic number, with rounding of quotients to the nearest
double, and the reading of a decimal significand and exponent.  All arithmetic is on
natural numbers.
-/

namespace Timelock

/-- The number `±significand · 2 ^ exponent`.  The significand is below `2 ^ 53`, and it is
at least `2 ^ 52` unless the exponent is `-1074`. -/
structure Binary64 where
  negative : Bool
  significand : Nat
  exponent : Int
  deriving DecidableEq

namespace Binary64

def zero (negative : Bool) : Binary64 := ⟨negative, 0, -1074⟩

/-- A quotient rounded to the nearest integer, a tie to the even one. -/
def roundQuotient (num den : Nat) : Nat :=
  let q := num / den
  let r := num % den
  if 2 * r < den then q
  else if den < 2 * r then q + 1
  else q + q % 2

/-- Numerator and denominator of `num / den · 2 ^ (-k)`. -/
def shiftRatio (num den : Nat) (k : Int) : Nat × Nat :=
  if 0 ≤ k then (num, den <<< k.toNat) else (num <<< (-k).toNat, den)

/-- The double nearest to `num / den`, ties to an even significand, or `none` when it lies
beyond the largest finite one. -/
def ofRatio? (negative : Bool) (num den : Nat) : Option Binary64 :=
  if num = 0 then some (zero negative)
  else
    let low : Int := max (-1074) ((num.log2 : Int) - den.log2 - 53)
    let fits := let (n, d) := shiftRatio num den low; n / d < 0x20000000000000
    let k := if fits then low else low + 1
    let (n, d) := shiftRatio num den k
    let m := roundQuotient n d
    let (m, k) := if m = 0x20000000000000 then (0x10000000000000, k + 1) else (m, k)
    if k ≤ 971 then some ⟨negative, m, k⟩ else none

def ratio (x : Binary64) : Nat × Nat :=
  shiftRatio x.significand 1 (-x.exponent)

def isZero (x : Binary64) : Bool := x.significand == 0

def powerOfTen (k : Nat) : Binary64 :=
  (ofRatio? false (Nat.pow 10 k) 1).getD (zero false)

def mul? (x y : Binary64) : Option Binary64 :=
  let (a, b) := x.ratio
  let (c, d) := y.ratio
  ofRatio? (x.negative != y.negative) (a * c) (b * d)

def div? (x y : Binary64) : Option Binary64 :=
  let (a, b) := x.ratio
  let (c, d) := y.ratio
  ofRatio? (x.negative != y.negative) (a * d) (b * c)

/-- Read `±significand · 10 ^ exponent` in two roundings: the significand is rounded to a
double, which is then multiplied or divided by the double nearest to the power of ten.
Exponents below -308 divide twice.  `none` when the number is too large. -/
def ofDecimal? (negative : Bool) (significand : Nat) (exponent : Int) : Option Binary64 :=
  match ofRatio? negative significand 1 with
  | none => none
  | some x =>
      if x.isZero then some x
      else if 308 < exponent then none
      else if 0 ≤ exponent then x.mul? (powerOfTen exponent.toNat)
      else if -308 ≤ exponent then x.div? (powerOfTen (-exponent).toNat)
      else if -616 ≤ exponent then do
        let y ← x.div? (powerOfTen 308)
        y.div? (powerOfTen (-(exponent + 308)).toNat)
      else some (zero negative)

end Binary64

end Timelock
