import QuantityCalculus.Dimension.Unchecked

/-!
# Definitions

A physical unit is a factor times base units and may carry aliases; its factor must
be positive and finite. An algebraic unit is given by a minimal polynomial, a
symbolic number by its rendering and an approximate value. A registry also takes any
other value as a definition, which then carries no aliases. Left out are definitions of
further types that have aliases too.
-/
namespace QuantityCalculus

structure PhysicalUnit where
  dimensions : DimensionMap
  factor : Value := .number (.float 1)
  aliases : List Value := []

inductive Definition where
  | physical (unit : PhysicalUnit)
  | algebraic (minimalPolynomial : Value)
  | symbolic (latex approximation : Value)
  | other (v : Value)

structure PhysicalParts where
  dimensions : Option Value := none
  factor : Option Value := none
  aliases : Option Value := none
  /-- Some part is named that physical units do not have. -/
  unknownPart : Bool := false

inductive DefinitionParts where
  | physical (parts : PhysicalParts)
  | algebraic (minimalPolynomial : Value)
  | symbolic (latex approximation : Option Value) (unknownPart : Bool)
  | other (v : Value)

namespace PhysicalUnit

def checkFactor : Value → Except Error Unit
  | .number a => do
    if ← a.isPositive then
      if ← a.isFinite then .ok () else .error .improperFactor
    else
      .error .improperFactor
  | _ => .error .operandType

/-- The factor is checked first, then the dimensions, then the aliases. -/
def build (dimensions factor aliases : Value) : Except Error PhysicalUnit := do
  checkFactor factor
  .ok ⟨← DimensionMap.normalize dimensions, factor, ← aliases.items⟩

def ofParts (parts : PhysicalParts) : Except Error PhysicalUnit :=
  match parts.unknownPart, parts.dimensions with
  | false, some dimensions =>
    build dimensions (parts.factor.getD (.number (.float 1))) (parts.aliases.getD (.list []))
  | _, _ => .error .operandType

def equals (a b : PhysicalUnit) : Except Error Bool := do
  if a.dimensions.agrees b.dimensions then
    if ← a.factor.equals b.factor then Value.itemsEqual a.aliases b.aliases else .ok false
  else
    .ok false

end PhysicalUnit

namespace Definition

def ofParts : DefinitionParts → Except Error Definition
  | .physical parts => do .ok (physical (← PhysicalUnit.ofParts parts))
  | .algebraic minimalPolynomial => .ok (algebraic minimalPolynomial)
  | .symbolic latex approximation unknownPart =>
    if unknownPart then .error .operandType
    else .ok (symbolic (latex.getD .absent) (approximation.getD .absent))
  | .other v => .ok (other v)

def aliases : Definition → List Value
  | physical unit => unit.aliases
  | _ => []

/-- The definition that is nothing at all. -/
def isAbsent : Definition → Bool
  | other .absent => true
  | _ => false

/-- Definitions of one sort are equal if their parts are the same or equal. -/
def equals : Definition → Definition → Except Error Bool
  | physical a, physical b => a.equals b
  | algebraic p, algebraic q => Value.itemsEqual [p] [q]
  | symbolic l a, symbolic m b => Value.itemsEqual [l, a] [m, b]
  | other v, other w => v.equals w
  | _, _ => .ok false

end Definition

end QuantityCalculus
