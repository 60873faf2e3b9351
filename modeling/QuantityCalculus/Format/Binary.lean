import QuantityCalculus.Format.Field
import QuantityCalculus.Number.Shortest

/-!
# Notations of doubles

A double is written with a number of places after the point, with an exponent, or in
the shorter one of both for a number of digits. Its digits are those of its exact
value, rounded half to even. Without notation and precision it has the fewest digits
that read back.
-/
namespace QuantityCalculus

open scoped NaturalPowers

/-- The digits of a number without trailing zeros, and how many of them stand before the
point; in front of them and behind them stand zeros. -/
structure PointedDigits where
  digits : List Char
  point : Int
  deriving DecidableEq, Repr

namespace PointedDigits

def zero : PointedDigits := ⟨['0'], 1⟩

def ofNat (n : Nat) (exponent : Int) : PointedDigits :=
  if n = 0 then zero
  else
    let digits := Nat.toDigits 10 n
    let kept := (digits.reverse.dropWhile (· == '0')).reverse
    ⟨kept, exponent + digits.length⟩

def isZero (d : PointedDigits) : Bool := d.digits == ['0']

def digitAt (d : PointedDigits) (place : Int) : Char :=
  if place < 0 then '0' else (d.digits[place.toNat]?).getD '0'

def slice (d : PointedDigits) (start stop : Int) : List Char :=
  (List.range (stop - start).toNat).map fun (k : Nat) => d.digitAt (start + k)

/-- Whole part and fraction, the latter up to the place `stop`; a point without a fraction
is written if asked for. -/
def split (d : PointedDigits) (stop : Int) (barePoint : Bool) : List Char × List Char :=
  let whole := if d.point ≤ 0 then ['0'] else d.slice 0 d.point
  let fraction := d.slice d.point stop
  (whole, if fraction.isEmpty && !barePoint then [] else '.' :: fraction)

def exponentText (mark : Char) (k : Int) : List Char :=
  let digits := Nat.toDigits 10 k.natAbs
  mark :: (if k < 0 then '-' else '+') :: List.replicate (2 - digits.length) '0' ++ digits

/-- One digit before the point and `places` after it, or as many as there are. -/
def withExponent (d : PointedDigits) (places : Option Nat) (mark : Char) (barePoint : Bool) :
    List Char × List Char :=
  let (whole, fraction) :=
    split ⟨d.digits, 1⟩ ((places.getD (d.digits.length - 1) : Int) + 1) barePoint
  (whole, fraction ++ exponentText mark (d.point - 1))

end PointedDigits

namespace Binary

def decimalLead (num den : Nat) : Int :=
  let estimate := Int.fdiv (((num.log2 : Int) - den.log2 - 1) * 301029995663) 1000000000000
  leadFrom num den 4 (estimate - 1)

/-- A quotient as a multiple of a power of ten, rounded half to even. -/
def roundAt (num den : Nat) (place : Int) : Nat :=
  if 0 ≤ place then roundHalfEven num (den * 10 ^ place.toNat)
  else roundHalfEven (num * 10 ^ (-place).toNat) den

def fixedDigits (num den places : Nat) : PointedDigits :=
  .ofNat (roundAt num den (-places)) (-places)

def leadingDigits (num den count : Nat) : PointedDigits :=
  if num = 0 then .zero
  else
    let place := decimalLead num den + 1 - count
    .ofNat (roundAt num den place) place

end Binary

inductive FloatNotation where
  /-- With a number of places after the point. -/
  | fixed (places : Nat)
  /-- With an exponent and a number of places. -/
  | exponent (places : Nat)
  /-- The shorter one of both for a number of digits; `whole` sees to it that a place after
  the point is left. -/
  | general (digits : Nat) (whole : Bool)
  /-- With the fewest digits that read back. -/
  | shortest
  deriving DecidableEq, Repr

namespace FloatNotation

/-- Whole part, rest and whether all digits are zeros, for the positive quotient
`num / den`, of which `short` are the fewest digits. -/
def parts (n : FloatNotation) (num den : Nat) (short : PointedDigits) (mark : Char)
    (alternate : Bool) : List Char × List Char × Bool :=
  match n with
  | fixed places =>
    let d := Binary.fixedDigits num den places
    let (whole, rest) := d.split (d.point + places) alternate
    (whole, rest, d.isZero)
  | exponent places =>
    let d := Binary.leadingDigits num den (places + 1)
    let (whole, rest) := d.withExponent (some places) mark alternate
    (whole, rest, d.isZero)
  | general digits whole =>
    let d := Binary.leadingDigits num den digits
    let stop : Int := if alternate then digits else d.digits.length
    let (before, rest) :=
      if d.point ≤ -4 ∨ (digits : Int) - (if whole then 1 else 0) < d.point then
        d.withExponent (some (stop - 1).toNat) mark alternate
      else
        d.split (if whole then max stop (d.point + 1) else stop) alternate
    (before, rest, d.isZero)
  | shortest =>
    let (whole, rest) :=
      if short.point ≤ -4 ∨ 16 < short.point then short.withExponent none mark alternate
      else short.split (max short.digits.length (short.point + 1)) alternate
    (whole, rest, short.isZero)

end FloatNotation

namespace Binary

def toParts (x : Binary) (n : FloatNotation) (upper alternate unsignedZero : Bool) : NumberParts :=
  let named (negative : Bool) (name upperName : String) : NumberParts :=
    { negative, whole := [], rest := (if upper then upperName else name).toList }
  match x with
  | .notANumber => named false "nan" "NAN"
  | .infinity negative => named negative "inf" "INF"
  | .finite negative significand scale =>
    let num := if 0 ≤ scale then significand * 2 ^ scale.toNat else significand
    let den := if 0 ≤ scale then 1 else 2 ^ (-scale).toNat
    let short :=
      if significand = 0 then .zero
      else
        let s := shortest significand scale
        PointedDigits.ofNat s.digits s.exponent
    let (whole, rest, isZero) := n.parts num den short (if upper then 'E' else 'e') alternate
    { negative := negative && !(unsignedZero && isZero), whole, rest }

end Binary

end QuantityCalculus
