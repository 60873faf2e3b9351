import QuantityCalculus.Dimension.Text
import QuantityCalculus.Number.DecimalArithmetic
import QuantityCalculus.Text.Quoted

/-!
# Errors

An error names its cause. Causes that this library detects itself carry what
their message says; a failure inside a value's own arithmetic has no message.
Every cause has one kind, and the kinds form a hierarchy, so that a caller may
handle an incompatible addition as such, as a type error, or as any error.
-/
namespace QuantityCalculus

open scoped NaturalPowers

inductive ErrorKind where
  | any
  | value
  | type
  | arithmetic
  | overflow
  | zeroDivision
  | decimalInvalid
  | decimalZeroDivision
  | decimalOverflow
  | runtime
  | notImplemented
  | lookup
  | index
  | member
  | memory
  | quantity
  | parse
  | incompatibleUnits
  | argument
  | nonIntegerPower
  | nonFiniteExponent
  | conversion
  | registry
  | emptyRegister
  deriving DecidableEq, Repr

namespace ErrorKind

/-- The more general kinds, from the nearest outwards. -/
def ancestors : ErrorKind → List ErrorKind
  | any => []
  | value | type | arithmetic | runtime | lookup | member | memory | quantity | emptyRegister =>
    [any]
  | overflow | zeroDivision | decimalInvalid | decimalOverflow => [arithmetic, any]
  | decimalZeroDivision => [zeroDivision, arithmetic, any]
  | notImplemented => [runtime, any]
  | index => [lookup, any]
  | parse | argument | registry => [quantity, value, any]
  | incompatibleUnits => [quantity, type, any]
  | nonIntegerPower => [argument, quantity, value, arithmetic, any]
  | nonFiniteExponent => [quantity, arithmetic, any]
  | conversion => [quantity, notImplemented, runtime, any]

def isA (kind general : ErrorKind) : Bool :=
  kind == general || kind.ancestors.contains general

end ErrorKind

inductive UnitFault where
  | symbol (found : Char)
  | exponent
  | exponentSize
  deriving DecidableEq, Repr

inductive AdditiveOp where
  | addition
  | subtraction
  deriving DecidableEq, Repr

inductive Error where
  /-- A unit expression is malformed at a place of its squeezed text. -/
  | unreadableUnits (fault : UnitFault) (text : String) (index : Nat)
  | unitsNotText (typeName : String)
  | symbolNotText (typeName : String)
  | booleanExponent
  | fractionalExponent (shown : String)
  /-- Scaling an exponent left the finite numbers. -/
  | unboundedExponent (symbol exponent factor : String)
  | powerNotNatural (shown : String)
  | unknownMode (shown : String)
  | incompatibleUnits (op : AdditiveOp) (left right : Dimensions)
  | notConvertible (source target : String)
  | improperFactor
  | improperName (kind name : String)
  | nameTaken (kind name : String)
  | unknownName (kind name : String)
  | aliasTaken (name : String)
  | notStrategy (typeName : String)
  | notContext (typeName : String)
  | moduloPower
  | unknownLayout
  | noAttribute (name : String)
  | divisionByZero
  | overflow
  /-- An operation does not apply to values of these types. -/
  | operandType
  /-- A text or a special number does not denote what is asked for. -/
  | improperValue
  | numeralTooLong
  | decimal (fault : DecimalFault)
  /-- A result would take up more room than there is. -/
  | outOfMemory
  | indexRange
  /-- A value lacks the operation or field that is asked of it. -/
  | missingMember
  | emptyRegister (name : String)
  deriving DecidableEq

/-- How much there is room for is a matter of the machine. This library sets a bound of its own, as
a restriction: repeated lists and texts and formatted fields of more than so many items count as out
of memory, although a machine may well have room for them. -/
def roomLimit : Nat := 2 ^ (26 : Nat)

namespace UnitFault

def message : UnitFault → String
  | symbol found => "Invalid unit " ++ Text.quote found.toString
  | exponent => "Invalid exponent after '^'"
  | exponentSize => "Exponent too large"

end UnitFault

namespace AdditiveOp

def name : AdditiveOp → String
  | addition => "addition"
  | subtraction => "subtraction"

end AdditiveOp

namespace Error

def kind : Error → ErrorKind
  | unreadableUnits .. => .parse
  | unitsNotText _ | symbolNotText _ | notStrategy _ | notContext _ | moduloPower => .type
  | booleanExponent | fractionalExponent _ | unknownMode _ => .argument
  | unboundedExponent .. => .nonFiniteExponent
  | powerNotNatural _ => .nonIntegerPower
  | incompatibleUnits .. => .incompatibleUnits
  | notConvertible .. => .conversion
  | improperFactor | improperName .. | nameTaken .. | unknownName .. | aliasTaken _ => .registry
  | unknownLayout => .value
  | noAttribute _ => .member
  | divisionByZero => .zeroDivision
  | overflow => .overflow
  | operandType => .type
  | improperValue | numeralTooLong => .value
  | decimal .invalid => .decimalInvalid
  | decimal .divisionByZero => .decimalZeroDivision
  | decimal .overflow => .decimalOverflow
  | outOfMemory => .memory
  | indexRange => .index
  | missingMember => .member
  | emptyRegister _ => .emptyRegister

/-- The text of an error that this library words itself. -/
def message : Error → Option String
  | unreadableUnits fault text index =>
    some s!"{fault.message} at index {index} in {Text.quote text}"
  | unitsNotText typeName => some s!"Unit expression must be str, got {typeName}"
  | symbolNotText typeName => some s!"Unit symbols must be str, got {typeName}"
  | booleanExponent => some "Exponent must be an integer, got bool"
  | fractionalExponent shown => some s!"Exponent must be an integer, got {shown}"
  | unboundedExponent symbol exponent factor =>
    some s!"Non-finite exponent for '{symbol}': {exponent} * {factor}"
  | powerNotNatural shown => some s!"Power must be a non-negative integer, got {shown}"
  | unknownMode shown =>
    some s!"Unknown simplify mode {shown}; expected one of: auto, manual, step"
  | incompatibleUnits op left right =>
    let leftUnits := orOne (left.render .plain)
    let rightUnits := orOne (right.render .plain)
    some s!"Incompatible units for {op.name}: '{leftUnits}' and '{rightUnits}'"
  | notConvertible source target =>
    some s!"Conversion from '{source}' to '{target}' is not implemented; units must match"
  | improperFactor => some "factor must be a positive, finite number"
  | improperName kind name =>
    some s!"Cannot register {kind} '{name}': names must match [A-Za-z_][A-Za-z0-9_]*"
  | nameTaken kind name =>
    some s!"Cannot register {kind} '{name}': a definition or alias with this name already exists."
  | unknownName kind name => some s!"Unknown {kind} '{name}'"
  | aliasTaken name => some s!"Cannot register alias '{name}': name already in use."
  | notStrategy typeName =>
    some s!"{typeName} does not implement NumericStrategy (add, sub, mul, div, pow, one, reciprocal)"
  | notContext typeName => some s!"Expected ArithmeticContext, got {typeName}"
  | moduloPower => some "Modulo exponentiation is not supported for Quantity."
  | unknownLayout => some "Unknown format spec; use '', 'plain', or 'pretty'"
  | noAttribute name => some s!"module 'dimensia' has no attribute {Text.quote name}"
  | divisionByZero | overflow | operandType | improperValue | numeralTooLong | decimal _ | outOfMemory
  | indexRange | missingMember | emptyRegister _ => none

end Error

end QuantityCalculus
