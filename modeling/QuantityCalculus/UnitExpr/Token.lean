import QuantityCalculus.Dimension.Map
import QuantityCalculus.Text.Numeral

/-!
# Unit expressions

A unit expression is a sequence of tokens: a multiplication sign, a division sign,
or a name with an optional integer exponent. A sign applies to every name up to the
next sign, and there is no other structure. The meaning of the tokens is the
product of the powers that the names contribute, from left to right.
-/
namespace QuantityCalculus

namespace UnitExpr

def isNameStart (c : Char) : Bool := c.isAlpha || c == '_'

def isNameChar (c : Char) : Bool := c.isAlphanum || c == '_'

/-- A letter or underscore, then letters, digits and underscores. -/
def isName : List Char → Bool
  | [] => false
  | c :: rest => isNameStart c && rest.all isNameChar

structure Literal where
  negative : Bool
  digits : List Char
  deriving DecidableEq, Repr

namespace Literal

def chars (l : Literal) : List Char :=
  if l.negative then '-' :: l.digits else l.digits

def value (l : Literal) : Int :=
  let n : Int := Nat.ofDigitChars 10 l.digits 0
  if l.negative then -n else n

def Valid (l : Literal) : Prop :=
  l.digits ≠ [] ∧ l.digits.all Char.isDigit = true ∧ l.digits.length ≤ Text.digitLimit

instance (l : Literal) : Decidable l.Valid := inferInstanceAs (Decidable (_ ∧ _ ∧ _))

end Literal

inductive Token where
  | multiply
  | divide
  | factor (name : List Char) (exponent : Option Literal)
  deriving DecidableEq, Repr

namespace Token

def chars : Token → List Char
  | multiply => ['*']
  | divide => ['/']
  | factor name none => name
  | factor name (some l) => name ++ '^' :: l.chars

def Valid : Token → Prop
  | multiply | divide => True
  | factor name none => isName name = true
  | factor name (some l) => isName name = true ∧ l.Valid

instance : (t : Token) → Decidable t.Valid
  | multiply | divide => inferInstanceAs (Decidable True)
  | factor name none => inferInstanceAs (Decidable (isName name = true))
  | factor _ (some _) => inferInstanceAs (Decidable (_ ∧ _))

end Token

/-- The exponent that a name contributes before its sign is applied. -/
def exponentValue : Option Literal → Int
  | none => 1
  | some l => l.value

/-- The powers that the names contribute; `dividing` is the sign in force. -/
def powers (dividing : Bool) : List Token → List (String × Int)
  | [] => []
  | .multiply :: rest => powers false rest
  | .divide :: rest => powers true rest
  | .factor name exponent :: rest =>
    let e := exponentValue exponent
    (String.ofList name, if dividing then -e else e) :: powers dividing rest

def meaning (tokens : List Token) : DimensionMap := .ofList (powers false tokens)

end UnitExpr

end QuantityCalculus
