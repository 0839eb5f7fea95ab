import Timelock.Number.Binary64

/-!
# Shortest decimal text of a double

The decimal with the fewest digits among those that read back as the given double, and of
these the nearest one.  A grid of decimals with a given number of digits is tried only at
the two points next to the double.
-/

namespace Timelock

namespace Binary64

/-- The interval of reals that round to a double, in units of a quarter of the spacing above
it: lower end, the double itself, upper end.  Below a power of two the spacing halves. -/
def roundingInterval (x : Binary64) : Nat × Nat × Nat :=
  let v := 4 * x.significand
  let below := if x.significand = 0x10000000000000 ∧ -1074 < x.exponent then 1 else 2
  (v - below, v, v + 2)

/-- The exponent `d` with `10 ^ d ≤ num / den < 10 ^ (d + 1)`. -/
def decimalExponent (num den : Nat) : Int :=
  if den ≤ num then ((Nat.toDigits 10 (num / den)).length : Int) - 1
  else
    match (List.range 330).find? (fun s ↦ den ≤ num * Nat.pow 10 (s + 1)) with
    | some s => -((s : Int) + 1)
    | none => -330

/-- The point of the grid `10 ^ g` that lies in the rounding interval, the nearer one if
both neighbours do, the even one of two equally near. -/
def gridPoint? (x : Binary64) (g : Int) : Option Nat :=
  let (lo, v, hi) := x.roundingInterval
  let (un, ud) := shiftRatio 1 1 (2 - x.exponent)
  let (gn, gd) := if 0 ≤ g then (Nat.pow 10 g.toNat, 1) else (1, Nat.pow 10 (-g).toNat)
  let a := un * gd
  let b := ud * gn
  let c := v * a / b
  let inside := fun (p : Nat) ↦
    if x.significand % 2 = 0 then lo * a ≤ p * b && p * b ≤ hi * a
    else lo * a < p * b && p * b < hi * a
  match inside c, inside (c + 1) with
  | false, false => none
  | true, false => some c
  | false, true => some (c + 1)
  | true, true =>
      let below := v * a - c * b
      let above := (c + 1) * b - v * a
      if below < above then some c
      else if above < below then some (c + 1)
      else some (c + c % 2)

/-- Digits and exponent `(n, g)` of the shortest decimal `n · 10 ^ g` of a nonzero double. -/
def shortestDecimal (x : Binary64) : Nat × Int :=
  let (num, den) := x.ratio
  let d := decimalExponent num den
  let hit := (List.range 17).findSome? fun (k : Nat) ↦
    let g := d - (k : Int)
    (x.gridPoint? g).map (fun n ↦ (n, g))
  hit.getD (0, 0)

def stripZeros (ds : List Char) : List Char :=
  (ds.reverse.dropWhile (· == '0')).reverse

/-- Plain notation, always with a fraction, for decimal exponents from -5 to 15, and
otherwise one digit before the point and a signed exponent. -/
def magnitudeText (x : Binary64) : List Char :=
  if x.isZero then ['0', '.', '0']
  else
    let (n, g) := x.shortestDecimal
    let all := Nat.toDigits 10 n
    let d : Int := g + all.length - 1
    let ds := stripZeros all
    if 0 ≤ d ∧ d ≤ 15 then
      let k := d.toNat + 1
      let whole := ds.take k ++ List.replicate (k - ds.length) '0'
      let fraction := ds.drop k
      whole ++ '.' :: (if fraction.isEmpty then ['0'] else fraction)
    else if -5 ≤ d ∧ d < 0 then
      '0' :: '.' :: (List.replicate ((-d).toNat - 1) '0' ++ ds)
    else
      let mantissa := match ds with
        | [] => []
        | [c] => [c]
        | c :: cs => c :: '.' :: cs
      let sign := if d < 0 then '-' else '+'
      mantissa ++ 'e' :: sign :: Nat.toDigits 10 d.natAbs

def text (x : Binary64) : List Char :=
  if x.negative then '-' :: x.magnitudeText else x.magnitudeText

end Binary64

end Timelock
