import QuantityCalculus.Value.Arithmetic

/-!
# Numeric strategies

The payloads of quantities are combined by a strategy: seven operations, any of
which may fail. The real strategy computes with values as they are, the fraction
strategy turns every operand into an exact ratio first, and the trace strategy
writes the computation down instead of carrying it out. An object offered as a
strategy is accepted only if it has all seven operations.
-/
namespace QuantityCalculus

structure NumericStrategy where
  /-- How the strategy is shown. -/
  description : String
  add : Value → Value → Except Error Value
  sub : Value → Value → Except Error Value
  mul : Value → Value → Except Error Value
  div : Value → Value → Except Error Value
  /-- A power with a natural exponent, which is checked. -/
  pow : Value → Value → Except Error Value
  /-- The unit of multiplication in the kind of a value. -/
  one : Value → Except Error Value
  reciprocal : Value → Except Error Value

namespace NumericStrategy

def real : NumericStrategy where
  description := "RealStrategy()"
  add := Value.add
  sub := Value.sub
  mul := Value.mul
  div := Value.div
  pow v n := do v.pow (← n.toPower)
  one v := .ok v.one
  reciprocal := Value.div (.integer 1)

def exactQuotient (p q : Rat) : Except Error Value :=
  if q = 0 then .error .divisionByZero else .ok (.ratio (p / q))

def fraction : NumericStrategy where
  description := "FractionStrategy()"
  add v w := do .ok (.ratio ((← v.toRatio) + (← w.toRatio)))
  sub v w := do .ok (.ratio ((← v.toRatio) - (← w.toRatio)))
  mul v w := do .ok (.ratio ((← v.toRatio) * (← w.toRatio)))
  div v w := do exactQuotient (← v.toRatio) (← w.toRatio)
  pow v n := do .ok (.ratio (ratPower (← v.toRatio) (← n.toPower)))
  one _ := .ok (.ratio 1)
  reciprocal v := do exactQuotient 1 (← v.toRatio)

def traced (sign : String) (v w : Value) : Except Error Value := do
  .ok (.text ("(" ++ (← v.display) ++ sign ++ (← w.display) ++ ")"))

def trace : NumericStrategy where
  description := "TraceStrategy()"
  add := traced "+"
  sub := traced "-"
  mul := traced "*"
  div := traced "/"
  pow := traced "^"
  one v := do .ok (.text ("one(" ++ (← v.display) ++ ")"))
  reciprocal v := do .ok (.text ("rec(" ++ (← v.display) ++ ")"))

end NumericStrategy

inductive StrategyOperation where
  | add
  | sub
  | mul
  | div
  | pow
  | one
  | reciprocal
  deriving DecidableEq, Repr

def NumericStrategy.call (s : NumericStrategy) (operation : StrategyOperation) (args : List Value) :
    Except Error Value :=
  match operation, args with
  | .add, [v, w] => s.add v w
  | .sub, [v, w] => s.sub v w
  | .mul, [v, w] => s.mul v w
  | .div, [v, w] => s.div v w
  | .pow, [v, w] => s.pow v w
  | .one, [v] => s.one v
  | .reciprocal, [v] => s.reciprocal v
  | _, _ => .error .operandType

/-- An object offered as a strategy, with those operations that it has. -/
structure StrategyCandidate where
  typeName : String
  description : String := ""
  add : Option (Value → Value → Except Error Value) := none
  sub : Option (Value → Value → Except Error Value) := none
  mul : Option (Value → Value → Except Error Value) := none
  div : Option (Value → Value → Except Error Value) := none
  pow : Option (Value → Value → Except Error Value) := none
  one : Option (Value → Except Error Value) := none
  reciprocal : Option (Value → Except Error Value) := none

namespace StrategyCandidate

def toStrategy? (c : StrategyCandidate) : Option NumericStrategy := do
  .some ⟨c.description, ← c.add, ← c.sub, ← c.mul, ← c.div, ← c.pow, ← c.one, ← c.reciprocal⟩

def check (c : StrategyCandidate) : Except Error NumericStrategy :=
  match c.toStrategy? with
  | some s => .ok s
  | none => .error (.notStrategy c.typeName)

end StrategyCandidate

def NumericStrategy.toCandidate (s : NumericStrategy) (typeName : String) : StrategyCandidate :=
  ⟨typeName, s.description, s.add, s.sub, s.mul, s.div, s.pow, s.one, s.reciprocal⟩

/-- A plain value has no operations to offer. -/
def Value.toCandidate (v : Value) : StrategyCandidate := { typeName := v.typeName }

@[simp] theorem NumericStrategy.check_toCandidate (s : NumericStrategy) (typeName : String) :
    (s.toCandidate typeName).check = .ok s := rfl

@[simp] theorem Value.check_toCandidate (v : Value) :
    v.toCandidate.check = .error (.notStrategy v.typeName) := rfl

end QuantityCalculus
