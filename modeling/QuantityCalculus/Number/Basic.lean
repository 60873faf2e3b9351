import QuantityCalculus.Number.Decimal
import QuantityCalculus.Number.Extent
import QuantityCalculus.Number.Shortest
import QuantityCalculus.Text.Numeral

/-!
# Numbers

Payloads are numbers of five kinds that stay distinct: truth values, which count
as zero and one, integers, doubles, exact ratios and decimals. Equality, order and
sign are those of the exact value. A double or decimal that is not a number equals
nothing, not even itself; given from outside it bears a label, by which one item
of lists and maps is still known to be the same as another.
-/
namespace QuantityCalculus

inductive NotANumber where
  | float
  | decimal (negative signalling : Bool) (payload : Nat)
  deriving DecidableEq, Repr

inductive Number where
  | truth (b : Bool)
  | integer (n : Int)
  | float (x : Float)
  | ratio (q : Rat)
  | decimal (d : Decimal)
  | labelled (label : Nat) (form : NotANumber)

namespace NotANumber

/-- The number as a result has it, without a label. -/
def toNumber : NotANumber → Number
  | float => .float (0 / 0)
  | decimal negative signalling payload => .decimal (.notANumber negative signalling payload)

def text : NotANumber → String
  | float => "nan"
  | decimal negative signalling payload => (Decimal.notANumber negative signalling payload).text

/-- The text that also shows the kind. -/
def description : NotANumber → String
  | float => "nan"
  | decimal negative signalling payload =>
    (Decimal.notANumber negative signalling payload).description

end NotANumber

namespace Number

def ofTruth (b : Bool) : Int := if b then 1 else 0

/-- Truth values as integers, and labels left off. -/
def widen : Number → Number
  | truth b => integer (ofTruth b)
  | labelled _ form => form.toNumber
  | a => a

def extent : Number → Extent
  | truth b => .finite (ofTruth b) 0
  | integer n => .finite n 0
  | float x =>
    match Binary.ofFloat x with
    | .finite negative significand scale =>
      .finite (((Binary.finite negative significand scale).toRat?).getD 0) 0
    | .infinity negative => .infinite negative
    | .notANumber => .notANumber
  | ratio q => .finite q 0
  | decimal d =>
    match d with
    | .finite negative coefficient exponent => .finite (signed negative coefficient) exponent
    | .infinity negative => .infinite negative
    | .notANumber .. => .notANumber
  | labelled .. => .notANumber

def equals (a b : Number) : Bool := a.extent.equals b.extent

def isZero (a : Number) : Bool := a.equals (integer 0)

/-- Whether two uses of what is not a number are uses of the same one. -/
def isSame : Number → Number → Bool
  | labelled l _, labelled m _ => l == m
  | _, _ => false

def isDecimal (a : Number) : Bool :=
  match a.widen with
  | decimal _ => true
  | _ => false

/-- Whether comparing the number is refused, and hashing it. -/
def isSignalling (a : Number) : Bool :=
  match a.widen with
  | decimal d => d.isSignalling
  | _ => false

/-- The exponent that a number stands for: integers, whole doubles and whole
ratios have one, truth values and decimals do not. -/
def toExponent? : Number → Option Int
  | integer n => some n
  | float x => (Binary.ofFloat x).toInt?
  | ratio q => if q.den = 1 then some q.num else none
  | truth _ | decimal _ | labelled .. => none

/-- Every numeral that the text of the number needs is short enough. -/
def Printable : Number → Prop
  | integer n => Text.HasNumeral n
  | ratio q => Text.HasNumeral q.num ∧ Text.HasNumeral q.den
  | truth _ | float _ | decimal _ | labelled .. => True

instance : (a : Number) → Decidable a.Printable
  | integer n => inferInstanceAs (Decidable (Text.HasNumeral n))
  | ratio _ => inferInstanceAs (Decidable (_ ∧ _))
  | truth _ | float _ | decimal _ | labelled .. => inferInstanceAs (Decidable True)

def text : Number → String
  | truth b => if b then "True" else "False"
  | integer n => n.repr
  | float x => floatText x
  | ratio q => if q.den = 1 then q.num.repr else s!"{q.num.repr}/{q.den.repr}"
  | decimal d => d.text
  | labelled _ form => form.text

def description : Number → String
  | ratio q => s!"Fraction({q.num.repr}, {q.den.repr})"
  | decimal d => d.description
  | labelled _ form => form.description
  | a => a.text

def typeName : Number → String
  | truth _ => "bool"
  | integer _ => "int"
  | float _ | labelled _ .float => "float"
  | ratio _ => "Fraction"
  | decimal _ | labelled _ (.decimal ..) => "Decimal"

end Number

end QuantityCalculus
