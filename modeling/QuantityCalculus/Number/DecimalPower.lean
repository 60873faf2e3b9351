import QuantityCalculus.Number.DecimalArithmetic
import QuantityCalculus.Number.Exponential
import QuantityCalculus.Number.ModularPower

/-!
# Powers of decimals

A power with a whole exponent is multiplied out by squaring, with more digits than the
precision by as many as the exponent has and two. Any other power of a positive decimal
goes through logarithm and exponential. The result is rounded to the precision in the
end. Powers that are undefined are refused: the zeroth one of zero, and those of
negative decimals with exponents that are not whole.
-/
namespace QuantityCalculus

open scoped NaturalPowers

namespace Decimal

def isWhole (coefficient : Nat) (exponent : Int) : Bool :=
  0 ≤ exponent || coefficient = 0 ||
    (-exponent).toNat < digitCount coefficient && coefficient % 10 ^ (-exponent).toNat = 0

def wholePart (coefficient : Nat) (exponent : Int) : Nat :=
  if 0 ≤ exponent then coefficient * 10 ^ exponent.toNat else coefficient / 10 ^ (-exponent).toNat

def isOdd (coefficient : Nat) (exponent : Int) : Bool :=
  exponent ≤ 0 && isWhole coefficient exponent && wholePart coefficient exponent % 2 = 1

def lead (coefficient : Nat) (exponent : Int) : Int := exponent + digitCount coefficient - 1

def isOne (coefficient : Nat) (exponent : Int) : Bool :=
  lead coefficient exponent = 0 && coefficient = 10 ^ (-exponent).toNat

/-- One with as many zeros after the point as the precision allows. -/
def fullOne (negative : Bool) : Decimal :=
  finite negative (10 ^ (precision - 1)) (1 - precision)

/-- A whole power of one has the places of the product, as far as the precision allows; a
negative one has none. -/
def powerOfOne (negative : Bool) (e : Int) (exponentNegative : Bool) (d : Nat) (f : Int) : Decimal :=
  if exponentNegative then finite negative 1 0
  else
    let places :=
      if e = 0 then 0
      else if 3 < lead d f then precision - 1
      else min ((-e).toNat * wholePart d f) (precision - 1)
    finite negative (10 ^ places) (-places)

/-- A lower bound of the exponent of the first digit of the decimal logarithm. -/
def logarithmLead (c : Nat) (e : Int) : Int :=
  let first := lead c e
  if 0 < first then digitCount first.natAbs - 1
  else if first < -1 then digitCount (first + 1).natAbs - 1
  else
    let distance := ((c : Int) - 10 ^ (-e).toNat).natAbs
    lead distance e - (if first = 0 then 2 else 1)

/-- The power by squaring from the first binary digit of the exponent on. -/
def powerFromHigh (places : Nat) (base : Decimal) (k : Nat) : Except DecimalFault Decimal := do
  if _h : k ≤ 1 then .ok base
  else
    let half ← powerFromHigh places base (k / 2)
    let square ← mulTo places half half
    if k % 2 = 1 then mulTo places square base else .ok square
termination_by k

/-- The power by squaring from the last binary digit of the exponent on, times `product`. -/
def powerFromLow (places : Nat) (base : Decimal) (k : Nat) (product : Decimal) :
    Except DecimalFault Decimal := do
  if _h : k = 0 then .ok product
  else
    let product ← if k % 2 = 1 then mulTo places product base else .ok product
    if k / 2 = 0 then .ok product
    else powerFromLow places (← mulTo places base base) (k / 2) product
termination_by k

def powerTo (places : Nat) (base : Decimal) (k : Nat) : Except DecimalFault Decimal :=
  if k < 2 ^ (64 : Nat) then powerFromHigh places base k
  else powerFromLow places base k (ofInt 1)

def finish (negative : Bool) : Decimal → Except DecimalFault Decimal
  | finite _ c e => fit negative c e
  | d => .ok d

/-- A power of a positive decimal, with the given sign, and a whole exponent that is not zero. -/
def wholePower (negative : Bool) (c : Nat) (e : Int) (exponentNegative : Bool) (k : Nat) :
    Except DecimalFault Decimal := do
  let places := precision + digitCount k + 2
  if exponentNegative then
    let inverse ← divFinite (places + 1) false 1 0 c e
    finish negative (← powerTo (places + 1) inverse k)
  else
    finish negative (← powerTo places (finite false c e) k)

def workingPlaces (c : Nat) : Nat := max (digitCount c) precision + 23

def toFixedPoint (scale : Nat) (negative : Bool) (c : Nat) (e : Int) : Int :=
  signed negative (if digitCount c + e + scale < 0 then 0 else wholePart c (e + scale))

/-- A power of a positive decimal other than one: the exponential of the exponent times the
logarithm. Twice the digits that are kept are enough, for no more are lost near one. -/
def logarithmicPower (c : Nat) (e : Int) (exponentNegative : Bool) (d : Nat) (f : Int) :
    Except DecimalFault Decimal :=
  let places := workingPlaces c
  let scale := 2 * places + 30
  let width := if c < 3 * 10 ^ (digitCount c - 1) then digitCount c - 1 else digitCount c
  let logarithm := FixedPoint.log scale c width (e + width)
  let (l, g) := toPlaces places logarithm.natAbs (-scale)
  let (x, h) := toPlaces places (l * d) (g + f)
  let argument := toFixedPoint scale ((logarithm < 0) != exponentNegative) x h
  let (m, k) := FixedPoint.exp scale argument
  let (m, k) := toPlaces places m (k - scale)
  fit false m k

/-- A power of a finite decimal that is not zero, with a finite exponent that is not zero. That
a power is out of range is seen from its size if that is beyond doubt. -/
def finitePower (s : Bool) (c : Nat) (e : Int) (t : Bool) (d : Nat) (f : Int) :
    Except DecimalFault Decimal :=
  let negative := s && isOdd d f
  let size := logarithmLead c e + lead d f
  let grows := decide (lead c e < 0) == t
  if isOne c e then
    .ok (if isWhole d f then powerOfOne negative e t d f else fullOne false)
  else if grows && decide (digitCount greatestExponent.natAbs < size) then .error .overflow
  else if !grows && decide (digitCount (leastExponent precision).natAbs < size) then
    .ok (finite negative 0 (leastExponent precision))
  else if isWhole d f then wholePower negative c e t (wholePart d f)
  else logarithmicPower c e t d f

/-- A power with an infinite exponent is decided by whether the base exceeds one. -/
def infinitePower (c : Nat) (e : Int) (exponentNegative : Bool) : Decimal :=
  if isOne c e then fullOne false
  else if decide (lead c e < 0) == exponentNegative then infinity false
  else finite false 0 0

def pow : Decimal → Decimal → Except DecimalFault Decimal
  | notANumber _ true _, _ | _, notANumber _ true _ => .error .invalid
  | notANumber s false p, _ => .ok (passOn s p)
  | _, notANumber s false p => .ok (passOn s p)
  | infinity s, infinity t =>
    if s then .error .invalid else .ok (if t then finite false 0 0 else infinity false)
  | infinity s, finite t d f =>
    let negative := s && isOdd d f
    if s && !isWhole d f then .error .invalid
    else if d = 0 then .ok (ofInt 1)
    else .ok (if t then finite negative 0 0 else infinity negative)
  | finite s c e, infinity t =>
    if c = 0 then .ok (if t then infinity false else finite false 0 0)
    else if s then .error .invalid
    else .ok (infinitePower c e t)
  | finite s c e, finite t d f =>
    let negative := s && isOdd d f
    if c = 0 then
      if d = 0 then .error .invalid
      else .ok (if t then infinity negative else finite negative 0 0)
    else if s && !isWhole d f then .error .invalid
    else if d = 0 then .ok (ofInt 1)
    else finitePower s c e t d f

def wholeModulo (coefficient : Nat) (exponent : Int) (modulus : Nat) : Nat :=
  if 0 ≤ exponent then coefficient * powMod 10 modulus exponent.toNat % modulus
  else wholePart coefficient exponent % modulus

/-- A power of whole numbers modulo a whole number that has no more digits than the precision;
it has the sign of the power. A positive exponent of the exponent stands for tenth powers. -/
def powModulo : Decimal → Decimal → Decimal → Except DecimalFault Decimal
  | notANumber _ true _, _, _ | _, notANumber _ true _, _ | _, _, notANumber _ true _ =>
    .error .invalid
  | notANumber s false p, _, _ => .ok (passOn s p)
  | _, notANumber s false p, _ => .ok (passOn s p)
  | _, _, notANumber s false p => .ok (passOn s p)
  | finite s c e, finite t d f, finite _ m g =>
    if !(isWhole c e && isWhole d f && isWhole m g) || m = 0
        || decide (precision < lead m g + 1) then .error .invalid
    else
      let modulus := wholePart m g
      if d = 0 then if c = 0 then .error .invalid else .ok (ofInt (1 % modulus : Nat))
      else if t then .error .invalid
      else if c = 0 then .ok (finite (s && isOdd d f) 0 0)
      else
        let base := wholeModulo c e modulus
        let raised := Nat.repeat (fun b => powMod b modulus 10) f.toNat base
        .ok (finite (s && isOdd d f) (powMod raised modulus (wholePart d (min f 0))) 0)
  | _, _, _ => .error .invalid

end Decimal

end QuantityCalculus
