import QuantityCalculus.Error
import QuantityCalculus.Number.Basic
import QuantityCalculus.Number.DecimalPower
import QuantityCalculus.Number.Power

/-!
# Arithmetic of numbers

Two numbers are brought to a common kind first: integers give way to ratios,
both to doubles, and integers to decimals; a decimal has no common kind with a
double or a ratio. Integers and ratios compute exactly, except that a quotient of
integers is the nearest double; decimals compute to a fixed number of digits.
Nothing is divided by zero, and a number beyond the range of the doubles is not
made into one.
-/
namespace QuantityCalculus

open scoped NaturalPowers

namespace Number

inductive Pair where
  | integers (m n : Int)
  | ratios (p q : Rat)
  | floats (x y : Float)
  | decimals (d e : Decimal)

def orOverflow : Option Float → Except Error Float
  | some x => .ok x
  | none => .error .overflow

def toFloat (a : Number) : Except Error Float :=
  match a.widen with
  | integer n => orOverflow (floatOfRat? n)
  | float x => .ok x
  | ratio q => orOverflow (floatOfRat? q)
  | _ => .error .operandType

def pair (a b : Number) : Except Error Pair :=
  match a.widen, b.widen with
  | integer m, integer n => .ok (.integers m n)
  | integer m, ratio q => .ok (.ratios m q)
  | ratio p, integer n => .ok (.ratios p n)
  | ratio p, ratio q => .ok (.ratios p q)
  | decimal d, decimal e => .ok (.decimals d e)
  | decimal d, integer n => .ok (.decimals d (.ofInt n))
  | integer m, decimal e => .ok (.decimals (.ofInt m) e)
  | decimal _, _ => .error .operandType
  | _, decimal _ => .error .operandType
  | a, b => do
    let x ← a.toFloat
    let y ← b.toFloat
    .ok (.floats x y)

def ofDecimal : Except DecimalFault Decimal → Except Error Number
  | .ok d => .ok (decimal d)
  | .error fault => .error (.decimal fault)

def add (a b : Number) : Except Error Number := do
  match ← pair a b with
  | .integers m n => .ok (integer (m + n))
  | .ratios p q => .ok (ratio (p + q))
  | .floats x y => .ok (float (x + y))
  | .decimals d e => ofDecimal (d.add e)

def sub (a b : Number) : Except Error Number := do
  match ← pair a b with
  | .integers m n => .ok (integer (m - n))
  | .ratios p q => .ok (ratio (p - q))
  | .floats x y => .ok (float (x - y))
  | .decimals d e => ofDecimal (d.add e.neg)

def mul (a b : Number) : Except Error Number := do
  match ← pair a b with
  | .integers m n => .ok (integer (m * n))
  | .ratios p q => .ok (ratio (p * q))
  | .floats x y => .ok (float (x * y))
  | .decimals d e => ofDecimal (d.mul e)

/-- The nearest double to a quotient of integers; a zero quotient keeps its sign. -/
def integerQuotient (m n : Int) : Except Error Number := do
  if n = 0 then .error .divisionByZero
  else .ok (float (← orOverflow (nearestFloat? ((m < 0) != (n < 0)) m.natAbs n.natAbs)))

def div (a b : Number) : Except Error Number := do
  match ← pair a b with
  | .integers m n => integerQuotient m n
  | .ratios p q => if q = 0 then .error .divisionByZero else .ok (ratio (p / q))
  | .floats x y => if y == 0 then .error .divisionByZero else .ok (float (x / y))
  | .decimals d e => ofDecimal (d.div e)

/-- A power of doubles. A finite one of finite doubles must stay finite, zero has no finite
power below zero, and a negative double has powers with whole exponents only. -/
def floatPower (x y : Float) : Except Error Number :=
  let exponent := Binary.ofFloat y
  if (Binary.ofFloat x).isFinite && exponent.isFinite then
    if x == 0 && y < 0 then .error .divisionByZero
    else if !(Binary.ofFloat (x.abs.pow y)).isFinite then .error .overflow
    else if x < 0 && exponent.toInt?.isNone then .error .operandType
    else .ok (float (x.pow y))
  else
    .ok (float (x.pow y))

def pow (a : Number) (k : Nat) : Except Error Number :=
  match a.widen with
  | integer n => .ok (integer (intPower n k))
  | ratio q => .ok (ratio (ratPower q k))
  | float x => do floatPower x (← orOverflow (floatOfRat? k))
  | decimal d => ofDecimal (d.pow (.ofInt k))
  | _ => .error .operandType

def one : Number → Number
  | truth _ | integer _ => integer 1
  | float _ | labelled _ .float => float 1
  | ratio _ => ratio 1
  | decimal _ | labelled _ (.decimal ..) => decimal (.ofInt 1)

/-- Whether a decimal is finite as a double; if its first digit stands far outside the
range of the doubles, so does the decimal. -/
def isDecimalFinite : Decimal → Bool
  | .finite negative coefficient exponent =>
    let lead := exponent + Decimal.digitCount coefficient
    coefficient = 0 || lead < -400 ||
      lead < 400 &&
        ((Decimal.finite negative coefficient exponent).toRat?.bind floatOfRat?).isSome
  | _ => false

/-- Whether a number is finite as a double; only a decimal may exceed the range. -/
def isFinite (a : Number) : Except Error Bool :=
  match a.widen with
  | float x => .ok (Binary.ofFloat x).isFinite
  | decimal d => .ok (isDecimalFinite d)
  | a => a.toFloat.map fun _ => true

@[simp] theorem add_ratio (p q : Rat) : (ratio p).add (ratio q) = .ok (ratio (p + q)) := rfl

@[simp] theorem sub_ratio (p q : Rat) : (ratio p).sub (ratio q) = .ok (ratio (p - q)) := rfl

@[simp] theorem mul_ratio (p q : Rat) : (ratio p).mul (ratio q) = .ok (ratio (p * q)) := rfl

@[simp] theorem pow_ratio (q : Rat) (k : Nat) : (ratio q).pow k = .ok (ratio (q ^ k)) := by
  simp [pow, widen]

theorem div_ratio (p q : Rat) :
    (ratio p).div (ratio q) = if q = 0 then .error .divisionByZero else .ok (ratio (p / q)) := rfl

@[simp] theorem add_integer (m n : Int) : (integer m).add (integer n) = .ok (integer (m + n)) := rfl

@[simp] theorem sub_integer (m n : Int) : (integer m).sub (integer n) = .ok (integer (m - n)) := rfl

@[simp] theorem mul_integer (m n : Int) : (integer m).mul (integer n) = .ok (integer (m * n)) := rfl

@[simp] theorem pow_integer (n : Int) (k : Nat) : (integer n).pow k = .ok (integer (n ^ k)) := by
  simp [pow, widen]

end Number

end QuantityCalculus
