import QuantityCalculus.Number.Power

/-!
# Binary numbers of double precision

A double is a sign, a significand of at most 53 bits and a power of two, or an
infinity, or not a number. Reading it from its bit pattern makes its exact value
available, and rounding a quotient of naturals to the nearest double, with a
half going to the even neighbour, is the way back. A quotient beyond the
largest double has no nearest one.
-/
namespace QuantityCalculus

open scoped NaturalPowers

/-- What a double denotes; a finite one is `± significand · 2 ^ scale`. -/
inductive Binary where
  | finite (negative : Bool) (significand : Nat) (scale : Int)
  | infinity (negative : Bool)
  | notANumber
  deriving DecidableEq, Repr

def signed (negative : Bool) (n : Nat) : Int := if negative then -n else n

namespace Binary

def ofBits (bits : Nat) : Binary :=
  let negative := bits / 2 ^ (63 : Nat) % 2 == 1
  let field : Nat := bits / 2 ^ (52 : Nat) % 2 ^ (11 : Nat)
  let fraction := bits % 2 ^ (52 : Nat)
  if field = 2047 then
    if fraction = 0 then infinity negative else notANumber
  else if field = 0 then
    finite negative fraction (-1074)
  else
    finite negative (fraction + 2 ^ (52 : Nat)) ((field : Int) - 1075)

def ofFloat (x : Float) : Binary := ofBits x.toBits.toNat

def isFinite : Binary → Bool
  | finite .. => true
  | _ => false

def toRat? : Binary → Option Rat
  | finite negative significand scale =>
    if 0 ≤ scale then some (signed negative (significand * 2 ^ scale.toNat))
    else some (mkRat (signed negative significand) (2 ^ (-scale).toNat))
  | _ => none

def toInt? (x : Binary) : Option Int :=
  x.toRat?.bind fun q => if q.den = 1 then some q.num else none

/-- The quotient rounded to a whole number, a half going to the even one. -/
def roundHalfEven (num den : Nat) : Nat :=
  let low := num / den
  let rest := 2 * (num % den)
  if rest < den ∨ rest = den ∧ low % 2 = 0 then low else low + 1

/-- The exponent of the last place of a double near a positive quotient. -/
def lastPlace (num den : Nat) : Int :=
  let guess : Int := (num.log2 : Int) - den.log2 - 53
  let wide : Bool :=
    if 0 ≤ guess + 53 then den * 2 ^ (guess + 53).toNat ≤ num
    else den ≤ num * 2 ^ (-(guess + 53)).toNat
  max (if wide then guess + 1 else guess) (-1074)

/-- The bits of the double nearest to `± num / den`, if it is within range. -/
def nearestBits? (negative : Bool) (num den : Nat) : Option Nat :=
  let place := lastPlace num den
  let significand :=
    if 0 ≤ place then roundHalfEven num (den * 2 ^ place.toNat)
    else roundHalfEven (num * 2 ^ (-place).toNat) den
  let magnitude :=
    if significand < 2 ^ (52 : Nat) then significand
    else (place + 1075).toNat * 2 ^ (52 : Nat) + (significand - 2 ^ (52 : Nat))
  if magnitude < 2047 * 2 ^ (52 : Nat) then
    some (if negative then 2 ^ (63 : Nat) + magnitude else magnitude)
  else
    none

end Binary

def nearestFloat? (negative : Bool) (num den : Nat) : Option Float :=
  (Binary.nearestBits? negative num den).map fun bits => Float.ofBits (UInt64.ofNat bits)

/-- The double nearest to a rational number; zero is positive. -/
def floatOfRat? (q : Rat) : Option Float :=
  nearestFloat? (q.num < 0) q.num.natAbs q.den

end QuantityCalculus
