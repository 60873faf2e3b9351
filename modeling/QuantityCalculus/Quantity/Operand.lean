import QuantityCalculus.Format.Value
import QuantityCalculus.Quantity.Text
import QuantityCalculus.Value.Power

/-!
# Operators on quantities and plain values

Quantities take part in the arithmetic operators together with plain numbers, which
count as quantities without dimensions on either side. A power takes its exponent
on the right only, and a quantity is no exponent. Between plain values the
operators are those of values.
-/
namespace QuantityCalculus

inductive Operand where
  | quantity (q : Quantity)
  | value (v : Value)

inductive Operator where
  | add
  | sub
  | mul
  | div
  | pow
  deriving DecidableEq, Repr

namespace Operand

def toQuantity? : Operand → Option Quantity
  | quantity q => some q
  | value (.number a) => some (.dimensionless (.number a))
  | value _ => none

/-- A quantity in the layout that a word asks for, and a plain value by a specification. -/
def textAs (a : Operand) (word : String) : Except Error String :=
  match a with
  | quantity q => q.textAs word
  | value v => v.formatted word

def toExponent : Operand → Except Error Int
  | value v => v.toExponent
  | quantity q => do .error (.fractionalExponent (← q.text .plain))

end Operand

namespace Operator

/-- The operation on quantities; a power is not one of two quantities. -/
def onQuantities : Operator → NumericStrategy → Quantity → Quantity → Except Error Quantity
  | add => Quantity.add
  | sub => Quantity.sub
  | mul => Quantity.mul
  | div => Quantity.div
  | pow => fun _ _ _ => .error .operandType

def onValues : Operator → Value → Value → Except Error Value
  | add, v, w => v.add w
  | sub, v, w => v.sub w
  | mul, v, w => v.mul w
  | div, v, w => v.div w
  | pow, v, w => v.raise w

/-- The error of raising a plain value to a quantity; a ratio is made a double first. -/
def notExponent : Value → Error
  | .number (.ratio q) => Number.ratioMismatch q
  | _ => .operandType

def apply (op : Operator) (s : NumericStrategy) : Operand → Operand → Except Error Operand
  | .value v, .value w => do .ok (.value (← op.onValues v w))
  | a, b =>
    match op, a with
    | .pow, .quantity q => do .ok (.quantity (← q.pow s (← b.toExponent)))
    | .pow, .value v => .error (notExponent v)
    | op, a =>
      match a.toQuantity?, b.toQuantity? with
      | some q, some r => do .ok (.quantity (← op.onQuantities s q r))
      | _, _ => .error .operandType

end Operator

structure Comparison where
  equal : Bool
  /-- Equal operands have equal hashes; unequal ones are not hashed. -/
  hashAgrees : Option Bool

def Operand.isHashable : Operand → Bool
  | quantity q => q.value.isHashable
  | value v => v.isHashable

/-- A quantity never equals a plain value. -/
def Operand.equals : Operand → Operand → Except Error Bool
  | quantity a, quantity b => a.equals b
  | value v, value w => v.equals w
  | _, _ => .ok false

/-- Compare two operands, and the hashes of equal ones. -/
def Operand.compare (a b : Operand) : Except Error Comparison := do
  if ← a.equals b then
    if a.isHashable then .ok ⟨true, some true⟩ else .error .operandType
  else
    .ok ⟨false, none⟩

end QuantityCalculus
