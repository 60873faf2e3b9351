import QuantityCalculus.Strategy
import QuantityCalculus.UnitExpr.Spec

/-!
# Quantities

A quantity couples a payload with dimensions. Sums and differences require equal
dimensions, and that is decided before the payloads are looked at. Products,
quotients and integer powers combine the payloads by a strategy and the dimensions
by the exponent laws. A zero power is the strategy's unit, without dimensions, and
a negative power is the reciprocal of the positive one.
-/
namespace QuantityCalculus

structure Quantity where
  value : Value
  dimensions : Dimensions

namespace Quantity

def dimensionless (v : Value) : Quantity := ⟨v, .dimensionless⟩

def build (v physical algebraic symbolic : Value) : Except Error Quantity := do
  .ok ⟨v, ← Dimensions.ofValues physical algebraic symbolic⟩

def ofSpec (ns : Namespace) (v spec : Value) : Except Error Quantity := do
  .ok ⟨v, .single ns (← DimensionMap.ofSpec spec)⟩

def isUnitless (q : Quantity) : Bool := q.dimensions.isDimensionless

/-- The error of an addition or subtraction across different dimensions; it shows
both, so their numerals must not be too long. -/
def incompatible (op : AdditiveOp) (a b : Dimensions) : Error :=
  if a.Printable ∧ b.Printable then .incompatibleUnits op a b else .numeralTooLong

def combine (op : AdditiveOp) (f : Value → Value → Except Error Value) (a b : Quantity) :
    Except Error Quantity :=
  if a.dimensions.agrees b.dimensions then do .ok ⟨← f a.value b.value, a.dimensions⟩
  else .error (incompatible op a.dimensions b.dimensions)

def add (s : NumericStrategy) (a b : Quantity) : Except Error Quantity :=
  combine .addition s.add a b

def sub (s : NumericStrategy) (a b : Quantity) : Except Error Quantity :=
  combine .subtraction s.sub a b

def mul (s : NumericStrategy) (a b : Quantity) : Except Error Quantity := do
  .ok ⟨← s.mul a.value b.value, a.dimensions * b.dimensions⟩

def div (s : NumericStrategy) (a b : Quantity) : Except Error Quantity := do
  .ok ⟨← s.div a.value b.value, a.dimensions / b.dimensions⟩

def pow (s : NumericStrategy) (a : Quantity) (n : Int) : Except Error Quantity := do
  if n = 0 then
    .ok ⟨← s.one a.value, .dimensionless⟩
  else
    let power ← s.pow a.value (.integer n.natAbs)
    let value ← if n < 0 then s.reciprocal power else .ok power
    .ok ⟨value, a.dimensions ^ n⟩

def powBy (s : NumericStrategy) (a : Quantity) (n : Value) : Except Error Quantity := do
  pow s a (← n.toExponent)

def notConvertible (source target : DimensionMap) : Error :=
  if source.Printable ∧ target.Printable then
    .notConvertible (orOne (source.render .plain)) (orOne (target.render .plain))
  else
    .numeralTooLong

/-- Only the conversion to a quantity's own physical units is possible. -/
def convertTo (q : Quantity) (spec : Value) : Except Error Quantity := do
  let target ← DimensionMap.ofSpec spec
  if q.dimensions.physical.agrees target then .ok q
  else .error (notConvertible q.dimensions.physical target)

/-- Equal dimensions and equal payloads; without the former, payloads are not compared. -/
def equals (a b : Quantity) : Except Error Bool :=
  if a.dimensions.agrees b.dimensions then a.value.equals b.value else .ok false

end Quantity

/-- Whether units specified by unchecked maps can be converted into each other. -/
def canConvert (source target : Value) : Except Error Bool := do
  .ok ((← DimensionMap.normalize source).agrees (← DimensionMap.normalize target))

end QuantityCalculus
