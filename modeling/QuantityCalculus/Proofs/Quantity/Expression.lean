import QuantityCalculus.Quantity.Operand

/-!
# Arithmetic expressions

An expression combines operands by the four operations and by integer powers. It is
evaluated from the left, as the operators on operands do it, and the first error ends
the evaluation. The operands may be of any kind that has a reading as operands.
-/
namespace QuantityCalculus

namespace Operator

variable {op : Operator} (hop : op ≠ .pow) (s : NumericStrategy)

include hop

theorem apply_quantity_left (q : Quantity) (b : Operand) :
    op.apply s (.quantity q) b =
      match b.toQuantity? with
      | some r => (do .ok (.quantity (← op.onQuantities s q r)))
      | none => .error .operandType := by
  cases op with
  | pow => exact absurd rfl hop
  | add | sub | mul | div =>
    cases b with
    | quantity r => rfl
    | value v => cases v <;> rfl

theorem apply_quantity_right (a : Operand) (r : Quantity) :
    op.apply s a (.quantity r) =
      match a.toQuantity? with
      | some q => (do .ok (.quantity (← op.onQuantities s q r)))
      | none => .error .operandType := by
  cases op with
  | pow => exact absurd rfl hop
  | add | sub | mul | div =>
    cases a with
    | quantity q => rfl
    | value v => cases v <;> rfl

end Operator

inductive Expression (α : Type) where
  | leaf (a : α)
  | add (a b : Expression α)
  | sub (a b : Expression α)
  | mul (a b : Expression α)
  | div (a b : Expression α)
  | pow (a : Expression α) (n : Int)

namespace Expression

variable {α β : Type}

def map (f : α → β) : Expression α → Expression β
  | leaf a => leaf (f a)
  | add a b => add (a.map f) (b.map f)
  | sub a b => sub (a.map f) (b.map f)
  | mul a b => mul (a.map f) (b.map f)
  | div a b => div (a.map f) (b.map f)
  | pow a n => pow (a.map f) n

/-- The value of an expression whose leaves read as operands, under a strategy. -/
def evaluate (s : NumericStrategy) (read : α → Operand) : Expression α → Except Error Operand
  | leaf a => .ok (read a)
  | add a b => do Operator.add.apply s (← a.evaluate s read) (← b.evaluate s read)
  | sub a b => do Operator.sub.apply s (← a.evaluate s read) (← b.evaluate s read)
  | mul a b => do Operator.mul.apply s (← a.evaluate s read) (← b.evaluate s read)
  | div a b => do Operator.div.apply s (← a.evaluate s read) (← b.evaluate s read)
  | pow a n => do Operator.pow.apply s (← a.evaluate s read) (.value (.integer n))

end Expression

/-- A number that is held exactly. -/
inductive ExactNumber where
  | integer (n : Int)
  | ratio (q : Rat)

namespace ExactNumber

def toRat : ExactNumber → Rat
  | integer n => n
  | ratio q => q

def toValue : ExactNumber → Value
  | integer n => .integer n
  | ratio q => .ratio q

@[simp] theorem toRatio_toValue (a : ExactNumber) : a.toValue.toRatio = .ok a.toRat := by
  cases a <;> rfl

end ExactNumber

/-- A quantity with an exact payload, or a plain exact number. -/
inductive ExactOperand where
  | quantity (payload : ExactNumber) (dimensions : Dimensions)
  | number (a : ExactNumber)

def ExactOperand.toOperand : ExactOperand → Operand
  | quantity payload dimensions => .quantity ⟨payload.toValue, dimensions⟩
  | number a => .value a.toValue

end QuantityCalculus
