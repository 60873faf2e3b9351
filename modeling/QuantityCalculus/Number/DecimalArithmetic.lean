import QuantityCalculus.Number.DecimalRounding

/-!
# Arithmetic of decimals

Sums, products and quotients are those of the exact values, rounded to the precision
of decimals. Signalling operands and undefined results are refused; quiet ones that
are not numbers pass through.
-/
namespace QuantityCalculus

open scoped NaturalPowers

namespace Decimal

def coefficientAt (coefficient : Nat) (exponent lower : Int) : Nat :=
  if coefficient = 0 then 0 else coefficient * 10 ^ (exponent - lower).toNat

/-- The coefficient and exponent of a term, of which no more matters than whether it is
zero if all of it lies below `floor`. -/
def raiseTo (floor : Int) (coefficient : Nat) (exponent : Int) : Nat × Int :=
  if exponent + digitCount coefficient < floor then (if coefficient = 0 then 0 else 1, floor)
  else (coefficient, exponent)

/-- A sum of zero is negative only if both terms are. -/
def addFinite (negative₁ : Bool) (c₁ : Nat) (e₁ : Int) (negative₂ : Bool) (c₂ : Nat) (e₂ : Int) :
    Except DecimalFault Decimal :=
  if c₁ = 0 ∧ c₂ = 0 then fit (negative₁ && negative₂) 0 (min e₁ e₂)
  else
    let top := if c₁ = 0 then e₂ else if c₂ = 0 then e₁ else max e₁ e₂
    let (c₁, e₁) := raiseTo (top - 2 * precision) c₁ e₁
    let (c₂, e₂) := raiseTo (top - 2 * precision) c₂ e₂
    let e := min e₁ e₂
    let n := signed negative₁ (coefficientAt c₁ e₁ e) + signed negative₂ (coefficientAt c₂ e₂ e)
    fit (if n = 0 then negative₁ && negative₂ else n < 0) n.natAbs e

/-- What is not a number as a result; of too many digits, the last ones are kept. -/
def passOn (negative : Bool) (payload : Nat) : Decimal :=
  notANumber negative false (payload % 10 ^ precision)

def add : Decimal → Decimal → Except DecimalFault Decimal
  | notANumber _ true _, _ | _, notANumber _ true _ => .error .invalid
  | notANumber s false p, _ => .ok (passOn s p)
  | _, notANumber s false p => .ok (passOn s p)
  | infinity s, infinity t => if s = t then .ok (infinity s) else .error .invalid
  | infinity s, finite .. => .ok (infinity s)
  | finite .., infinity t => .ok (infinity t)
  | finite s c e, finite t d f => addFinite s c e t d f

def mulTo (places : Nat) : Decimal → Decimal → Except DecimalFault Decimal
  | notANumber _ true _, _ | _, notANumber _ true _ => .error .invalid
  | notANumber s false p, _ => .ok (passOn s p)
  | _, notANumber s false p => .ok (passOn s p)
  | infinity s, infinity t => .ok (infinity (s != t))
  | infinity s, finite t c _ => if c = 0 then .error .invalid else .ok (infinity (s != t))
  | finite s c _, infinity t => if c = 0 then .error .invalid else .ok (infinity (s != t))
  | finite s c e, finite t d f => fitTo places (s != t) (c * d) (e + f)

def mul (d e : Decimal) : Except DecimalFault Decimal := mulTo precision d e

/-- Drop up to `k` zeros at the end, each for one more in the exponent. -/
def dropZeros (coefficient : Nat) (exponent : Int) : Nat → Nat × Int
  | 0 => (coefficient, exponent)
  | k + 1 =>
    if coefficient % 10 = 0 then dropZeros (coefficient / 10) (exponent + 1) k
    else (coefficient, exponent)

/-- A quotient that ends within the number of digits keeps the exponent of a plain division
as far as it can; of any other one, two digits more than needed tell how to round. -/
def divFinite (places : Nat) (negative : Bool) (c : Nat) (e : Int) (d : Nat) (f : Int) :
    Except DecimalFault Decimal :=
  let shift : Int := digitCount d - digitCount c + places + 1
  let num := c * 10 ^ shift.toNat
  let den := d * 10 ^ (-shift).toNat
  if num % den = 0 then
    let (coefficient, exponent) := dropZeros (num / den) (e - f - shift) shift.toNat
    fitTo places negative coefficient exponent
  else
    let low := num / den
    fitTo places negative (if low % 5 = 0 then low + 1 else low) (e - f - shift)

def div : Decimal → Decimal → Except DecimalFault Decimal
  | notANumber _ true _, _ | _, notANumber _ true _ => .error .invalid
  | notANumber s false p, _ => .ok (passOn s p)
  | _, notANumber s false p => .ok (passOn s p)
  | infinity _, infinity _ => .error .invalid
  | infinity s, finite t .. => .ok (infinity (s != t))
  | finite s .., infinity t => .ok (finite (s != t) 0 (leastExponent precision))
  | finite s c e, finite t d f =>
    if d = 0 then .error (if c = 0 then .invalid else .divisionByZero)
    else if c = 0 then fit (s != t) 0 (e - f)
    else divFinite precision (s != t) c e d f

end Decimal

end QuantityCalculus
