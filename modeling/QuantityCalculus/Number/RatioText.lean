import QuantityCalculus.Error
import QuantityCalculus.Number.Basic
import QuantityCalculus.Text.Blank
import QuantityCalculus.Text.DecimalDigit

/-!
# Ratios as text

A ratio is written as a quotient of two digit runs, or as a decimal with an
optional fraction and an optional power of ten. A sign may stand in front,
blanks around the whole, and single underscores between digits. A ratio also
arises from every number that is finite, with its exact value.
-/
namespace QuantityCalculus

open scoped NaturalPowers

inductive RatioForm where
  | quotient (negative : Bool) (num den : List Nat)
  | decimal (negative : Bool) (whole fraction : List Nat) (negativeExponent : Bool)
      (exponent : List Nat)
  deriving DecidableEq, Repr

namespace RatioForm

/-- The longest run of digits with single underscores between them, and the rest;
`within` tells whether a digit precedes. -/
def digitRun (within : Bool) : List Char → List Nat × List Char
  | [] => ([], [])
  | c :: rest =>
    match Text.decimalDigit? c with
    | some d =>
      let (digits, tail) := digitRun true rest
      (d :: digits, tail)
    | none =>
      match rest with
      | [] => ([], [c])
      | c' :: rest' =>
        match within && c == '_', Text.decimalDigit? c' with
        | true, some d =>
          let (digits, tail) := digitRun true rest'
          (d :: digits, tail)
        | _, _ => ([], c :: c' :: rest')

def signOf : List Char → Bool × List Char
  | '-' :: rest => (true, rest)
  | '+' :: rest => (false, rest)
  | cs => (false, cs)

/-- A power of ten at the end: nothing, or a mark and a signed run of digits. -/
def exponentPart? : List Char → Option (Bool × List Nat)
  | [] => some (false, [])
  | c :: rest =>
    if c = 'e' ∨ c = 'E' then
      let (negative, unsigned) := signOf rest
      match digitRun false unsigned with
      | ([], _) => none
      | (digits, []) => some (negative, digits)
      | _ => none
    else
      none

def ofTrimmed? (cs : List Char) : Option RatioForm :=
  let (negative, unsigned) := signOf cs
  let (whole, rest) := digitRun false unsigned
  match rest with
  | '/' :: den =>
    match whole, digitRun false den with
    | _ :: _, (d :: ds, []) => some (quotient negative whole (d :: ds))
    | _, _ => none
  | '.' :: tail =>
    let (fraction, tail) := digitRun false tail
    if whole = [] ∧ fraction = [] then none
    else (exponentPart? tail).map fun (s, exponent) => decimal negative whole fraction s exponent
  | tail =>
    if whole = [] then none
    else (exponentPart? tail).map fun (s, exponent) => decimal negative whole [] s exponent

def ofText? (s : String) : Option RatioForm := ofTrimmed? (Text.trim s.toList)

def digitsValue (digits : List Nat) : Nat := digits.foldl (fun n d => 10 * n + d) 0

def read (digits : List Nat) : Except Error Nat :=
  if digits.length ≤ Text.digitLimit then .ok (digitsValue digits) else .error .numeralTooLong

def value : RatioForm → Except Error Rat
  | quotient negative num den => do
    let n ← read num
    let d ← read den
    if d = 0 then .error .divisionByZero else .ok (mkRat (signed negative n) d)
  | decimal negative whole fraction negativeExponent exponent => do
    let w ← read whole
    let f ← read fraction
    let k ← read exponent
    let num := w * 10 ^ fraction.length + f
    let den := 10 ^ fraction.length
    .ok (if negativeExponent then mkRat (signed negative num) (den * 10 ^ k)
      else mkRat (signed negative (num * 10 ^ k)) den)

end RatioForm

def ratioOfText (s : String) : Except Error Rat :=
  match RatioForm.ofText? s with
  | some form => form.value
  | none => .error .improperValue

def Number.toRatio : Number → Except Error Rat
  | truth b => .ok (ofTruth b)
  | integer n => .ok n
  | ratio q => .ok q
  | float x =>
    match Binary.ofFloat x with
    | .finite negative significand scale =>
      .ok ((Binary.finite negative significand scale).toRat?.getD 0)
    | .infinity _ => .error .overflow
    | .notANumber => .error .improperValue
  | decimal d =>
    match d with
    | .finite negative coefficient exponent =>
      .ok ((Decimal.finite negative coefficient exponent).toRat?.getD 0)
    | .infinity _ => .error .overflow
    | .notANumber .. => .error .improperValue
  | labelled .. => .error .improperValue

@[simp] theorem Number.toRatio_ratio (q : Rat) : (Number.ratio q).toRatio = .ok q := rfl

@[simp] theorem Number.toRatio_integer (n : Int) : (Number.integer n).toRatio = .ok n := rfl

end QuantityCalculus
