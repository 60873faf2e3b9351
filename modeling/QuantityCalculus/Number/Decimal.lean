import QuantityCalculus.Number.Binary

/-!
# Decimal numbers

A decimal keeps the digits it was written with: `1.50` and `1.5` are equal but
distinct. Any number of digits and any exponent can be stored and shown.
-/
namespace QuantityCalculus

open scoped NaturalPowers

/-- A finite decimal is `± coefficient · 10 ^ exponent`. The special ones are the
infinities and values that are not numbers, quiet or signalling, which may carry
digits of their own. -/
inductive Decimal where
  | finite (negative : Bool) (coefficient : Nat) (exponent : Int)
  | infinity (negative : Bool)
  | notANumber (negative signalling : Bool) (payload : Nat)
  deriving DecidableEq, Repr

namespace Decimal

def ofInt (n : Int) : Decimal := finite (n < 0) n.natAbs 0

def toRat? : Decimal → Option Rat
  | finite negative coefficient exponent =>
    let n := signed negative coefficient
    if coefficient = 0 then some 0
    else if 0 ≤ exponent then some (n * 10 ^ exponent.toNat : Int)
    else some (mkRat n (10 ^ (-exponent).toNat))
  | _ => none

def isSignalling : Decimal → Bool
  | notANumber _ signalling _ => signalling
  | _ => false

def digitCountFrom (coefficient : Nat) : (fuel k : Nat) → Nat
  | 0, k => k
  | fuel + 1, k => if 10 ^ k ≤ coefficient then digitCountFrom coefficient fuel (k + 1) else k

/-- The number of digits, found upwards from an estimate: the binary length times `log 2`,
rounded down, is at most two below it. -/
def digitCount (coefficient : Nat) : Nat :=
  digitCountFrom coefficient 3 (max 1 (coefficient.log2 * 301029995663 / 1000000000000))

def neg : Decimal → Decimal
  | finite negative coefficient exponent => finite (!negative) coefficient exponent
  | infinity negative => infinity (!negative)
  | d => d

/-- The digits with a point after the first `whole` of them; zeros fill up. -/
def pointedText (digits : List Char) (whole : Int) : String :=
  if whole ≤ 0 then
    String.ofList ('0' :: '.' :: List.replicate (-whole).toNat '0' ++ digits)
  else if digits.length ≤ whole.toNat then
    String.ofList digits
  else
    String.ofList (digits.take whole.toNat ++ '.' :: digits.drop whole.toNat)

/-- Positional if the exponent is not positive and at most five zeros follow the
point before the digits; otherwise with one digit before the point and an exponent. -/
def text : Decimal → String
  | finite negative coefficient exponent =>
    let digits := Nat.toDigits 10 coefficient
    let whole := exponent + digits.length
    let magnitude :=
      if exponent ≤ 0 ∧ -6 < whole then
        pointedText digits whole
      else
        let lead := whole - 1
        pointedText digits 1 ++ (if lead < 0 then "E-" else "E+") ++ lead.natAbs.repr
    if negative then "-" ++ magnitude else magnitude
  | infinity negative => if negative then "-Infinity" else "Infinity"
  | notANumber negative signalling payload =>
    (if negative then "-" else "") ++ (if signalling then "sNaN" else "NaN") ++
      if payload = 0 then "" else payload.repr

def description (d : Decimal) : String := s!"Decimal('{d.text}')"

end Decimal

end QuantityCalculus
