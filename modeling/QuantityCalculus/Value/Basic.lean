import QuantityCalculus.Error
import QuantityCalculus.Number.Basic

/-!
# Values

The payload of a quantity may be any value: a number, a text, a list, a map with
values as keys, or nothing. Values that arrive from outside also stand where
exponents, symbols and names are expected and are checked there.

These are all the values there are here, so that "any value" means any of these.
Left out are complex numbers, integral and rational numbers of further types, and
objects with operations of their own.
-/
namespace QuantityCalculus

open scoped NaturalPowers

inductive Value where
  | absent
  | number (a : Number)
  | text (s : String)
  | list (items : List Value)
  | map (entries : List (Value × Value))

instance : Inhabited Value := ⟨.absent⟩

namespace Value

abbrev integer (n : Int) : Value := number (.integer n)

abbrev ratio (q : Rat) : Value := number (.ratio q)

def typeName : Value → String
  | absent => "NoneType"
  | number a => a.typeName
  | text _ => "str"
  | list _ => "list"
  | map _ => "dict"

/-- Nothing, zero, and what is empty count as absent where a map is optional. -/
def isVacant : Value → Bool
  | absent => true
  | number a => a.isZero
  | text s => s.isEmpty
  | list items => items.isEmpty
  | map entries => entries.isEmpty

/-- Lists, maps and signalling numbers cannot be keys and have no hash. -/
def isHashable : Value → Bool
  | number a => !a.isSignalling
  | absent | text _ => true
  | list _ | map _ => false

mutual

/-- The text of a value as an item of a list or within a message. -/
def description : Value → String
  | absent => "None"
  | number a => a.description
  | text s => Text.quote s
  | list items => "[" ++ ", ".intercalate (descriptions items) ++ "]"
  | map entries => "\x7b" ++ ", ".intercalate (entryDescriptions entries) ++ "\x7d"

def descriptions : List Value → List String
  | [] => []
  | v :: rest => v.description :: descriptions rest

def entryDescriptions : List (Value × Value) → List String
  | [] => []
  | (k, v) :: rest => (k.description ++ ": " ++ v.description) :: entryDescriptions rest

end

def plainText : Value → String
  | number a => a.text
  | text s => s
  | v => v.description

mutual

/-- Every numeral that the text needs is short enough. -/
def isPrintable : Value → Bool
  | absent | text _ => true
  | number a => decide a.Printable
  | list items => arePrintable items
  | map entries => areEntriesPrintable entries

def arePrintable : List Value → Bool
  | [] => true
  | v :: rest => v.isPrintable && arePrintable rest

def areEntriesPrintable : List (Value × Value) → Bool
  | [] => true
  | (k, v) :: rest => k.isPrintable && v.isPrintable && areEntriesPrintable rest

end

/-- The text of a value within a message, if its numerals are short enough. -/
def describe (v : Value) : Except Error String :=
  if v.isPrintable then .ok v.description else .error .numeralTooLong

def display (v : Value) : Except Error String :=
  if v.isPrintable then .ok v.plainText else .error .numeralTooLong

/-- The text of a payload: a whole double below `10 ^ 21` in magnitude is written like
the integer it equals. -/
def payloadText (v : Value) : Except Error String :=
  match v with
  | number (.float x) =>
    match (Binary.ofFloat x).toInt? with
    | some n => .ok (if n.natAbs < 10 ^ (21 : Nat) then n.repr else floatText x)
    | none => .ok (floatText x)
  | _ => v.display

end Value

end QuantityCalculus
