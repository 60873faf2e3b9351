import QuantityCalculus.Number.Arithmetic

/-!
# Powers of numbers by numbers

Any number may be raised to any other one. Whole powers of integers and ratios are exact,
but a negative power of an integer is a double; a power with an exponent that is not
whole is one of doubles. Decimals are raised to decimals and to what stands for an
integer. Powers of integers modulo an integer take its sign.
-/
namespace QuantityCalculus

open scoped NaturalPowers

namespace Number

/-- Raise doubles that are near to ratios. -/
def nearPower (p q : Rat) : Except Error Number := do
  floatPower (← orOverflow (floatOfRat? p)) (← orOverflow (floatOfRat? q))

def raiseInteger (m n : Int) : Except Error Number :=
  if n < 0 then nearPower m n else .ok (integer (intPower m n.toNat))

def raiseRatio (p : Rat) (n : Int) : Except Error Number :=
  if 0 ≤ n then .ok (ratio (ratPower p n.toNat))
  else if p = 0 then .error .divisionByZero
  else .ok (ratio (ratPower p⁻¹ n.natAbs))

/-- The error of raising a ratio to a value, or a value to a ratio, that it has no power
with; the ratio is made a double first. -/
def ratioMismatch (q : Rat) : Error := if (floatOfRat? q).isSome then .operandType else .overflow

/-- A power with a ratio as exponent; a whole one counts as an integer. -/
def raiseToRatio (a : Number) (q : Rat) : Except Error Number :=
  match a with
  | integer m =>
    if q.den = 1 then
      if 0 ≤ q.num then raiseInteger m q.num else raiseRatio m q.num
    else nearPower m q
  | ratio p => if q.den = 1 then raiseRatio p q.num else nearPower p q
  | float x => do floatPower x (← orOverflow (floatOfRat? q))
  | decimal d => if q.den = 1 then ofDecimal (d.pow (.ofInt q.num)) else .error (ratioMismatch q)
  | _ => .error .operandType

def raise (a b : Number) : Except Error Number :=
  match a.widen, b.widen with
  | a, ratio q => raiseToRatio a q
  | integer m, integer n => raiseInteger m n
  | ratio p, integer n => raiseRatio p n
  | decimal d, decimal e => ofDecimal (d.pow e)
  | decimal d, integer n => ofDecimal (d.pow (.ofInt n))
  | integer m, decimal e => ofDecimal ((Decimal.ofInt m).pow e)
  | ratio p, decimal _ => .error (ratioMismatch p)
  | decimal _, _ | _, decimal _ => .error .operandType
  | a, b => do floatPower (← a.toFloat) (← b.toFloat)

def raiseIntegerModulo (a n m : Int) : Except Error Number :=
  let modulus := m.natAbs
  let residue (base k : Nat) : Number := integer (Int.fmod (powMod base modulus k) m)
  if m = 0 then .error .improperValue
  else if modulus = 1 then .ok (integer 0)
  else
    let base := (a % m).toNat
    if 0 ≤ n then .ok (residue base n.toNat)
    else
      match inverseMod? base modulus with
      | some inverse => .ok (residue inverse n.natAbs)
      | none => .error .improperValue

def toDecimal? (a : Number) : Option Decimal :=
  match a.widen with
  | integer n => some (.ofInt n)
  | decimal d => some d
  | _ => none

def raiseModulo (a n m : Number) : Except Error Number :=
  match a.widen, n.widen, m.widen with
  | integer a, integer n, integer m => raiseIntegerModulo a n m
  | a, n, m =>
    match a.toDecimal?, n.toDecimal?, m.toDecimal? with
    | some d, some e, some f => ofDecimal (d.powModulo e f)
    | _, _, _ => .error .operandType

@[simp] theorem raise_integer (n : Int) (k : Nat) :
    (integer n).raise (integer k) = .ok (integer (n ^ k)) := by
  have h : ¬((k : Int) < 0) := by omega
  simp [raise, widen, raiseInteger, h]

@[simp] theorem raise_ratio (q : Rat) (k : Nat) :
    (ratio q).raise (integer k) = .ok (ratio (q ^ k)) := by
  simp [raise, widen, raiseRatio]

end Number

end QuantityCalculus
