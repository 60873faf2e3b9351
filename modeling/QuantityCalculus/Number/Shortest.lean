import QuantityCalculus.Number.Binary

/-!
# Shortest decimal text of a double

A finite double is written with the fewest digits that read back as the same
double, and among those with the digits nearest to its value. A decimal reads
back when it lies in the interval of values that round to the double, ends
included exactly when the significand is even. For each count of digits only the
two neighbours of the value on that decimal grid can be the nearest hit.
-/
namespace QuantityCalculus

open scoped NaturalPowers

/-- A positive decimal `digits · 10 ^ exponent`. -/
structure ShortDecimal where
  digits : Nat
  exponent : Int
  deriving DecidableEq, Repr

namespace Binary

/-- The interval of a positive double and its value, as quarters of the last
place: numerators over one denominator. -/
structure Interval where
  low : Nat
  value : Nat
  high : Nat
  den : Nat
  closed : Bool

/-- The lower gap is half as wide at a power of two, except for the smallest. -/
def interval (significand : Nat) (scale : Int) : Interval :=
  let narrow := significand = 2 ^ (52 : Nat) ∧ -1074 < scale
  let low := 4 * significand - if narrow then 1 else 2
  let value := 4 * significand
  let high := 4 * significand + 2
  let closed := significand % 2 == 0
  if 0 ≤ scale then
    let factor := 2 ^ scale.toNat
    ⟨low * factor, value * factor, high * factor, 4, closed⟩
  else
    ⟨low, value, high, 4 * 2 ^ (-scale).toNat, closed⟩

namespace Interval

/-- Whether `digits · 10 ^ exponent` reads back as the double. -/
def covers (i : Interval) (digits : Nat) (exponent : Int) : Bool :=
  let scaled := if 0 ≤ exponent then digits * 10 ^ exponent.toNat * i.den else digits * i.den
  let unit := if 0 ≤ exponent then 1 else 10 ^ (-exponent).toNat
  if i.closed then i.low * unit ≤ scaled && scaled ≤ i.high * unit
  else i.low * unit < scaled && scaled < i.high * unit

/-- The nearer of the value's two neighbours on the grid of multiples of
`10 ^ exponent` that read back. -/
def onGrid? (i : Interval) (exponent : Int) : Option Nat :=
  let num := if 0 ≤ exponent then i.value else i.value * 10 ^ (-exponent).toNat
  let den := if 0 ≤ exponent then i.den * 10 ^ exponent.toNat else i.den
  let low := num / den
  let rest := 2 * (num % den)
  let lowNearer : Bool := rest < den || rest == den && low % 2 == 0
  match 0 < low && i.covers low exponent, i.covers (low + 1) exponent with
  | true, true => some (if lowNearer then low else low + 1)
  | true, false => some low
  | false, true => some (low + 1)
  | false, false => none

/-- The first grid with a hit, from `count` digits on; `lead` is the exponent of
the value's leading digit. -/
def shortestFrom (i : Interval) (lead : Int) : (fuel count : Nat) → ShortDecimal
  | 0, _ => ⟨0, 0⟩
  | fuel + 1, count =>
    let exponent := lead + 1 - count
    match i.onGrid? exponent with
    | some digits => ⟨digits, exponent⟩
    | none => shortestFrom i lead fuel (count + 1)

end Interval

def reachesPowerOfTen (num den : Nat) (k : Int) : Bool :=
  if 0 ≤ k then den * 10 ^ k.toNat ≤ num else den ≤ num * 10 ^ (-k).toNat

def leadFrom (num den : Nat) : (fuel : Nat) → Int → Int
  | 0, k => k
  | fuel + 1, k => if reachesPowerOfTen num den (k + 1) then leadFrom num den fuel (k + 1) else k

/-- The exponent of the leading decimal digit: the binary one times `log 2`,
rounded down, is at most two below it. -/
def leadingPlace (significand : Nat) (scale : Int) (i : Interval) : Int :=
  let estimate := Int.fdiv ((significand.log2 + scale) * 301029995663) 1000000000000 - 1
  leadFrom i.value i.den 3 estimate

/-- The shortest decimal that reads back as `significand · 2 ^ scale`; seventeen
digits always suffice. -/
def shortest (significand : Nat) (scale : Int) : ShortDecimal :=
  let i := interval significand scale
  let found := i.shortestFrom (leadingPlace significand scale i) 17 1
  trim found 17
where
  /-- Move trailing zeros of the digits into the exponent. -/
  trim (d : ShortDecimal) : Nat → ShortDecimal
    | 0 => d
    | fuel + 1 =>
      if d.digits ≠ 0 ∧ d.digits % 10 = 0 then trim ⟨d.digits / 10, d.exponent + 1⟩ fuel else d

end Binary

structure DecimalLayout where
  /-- The least exponent of the leading digit that is written positionally. -/
  positionalFrom : Int
  /-- The least exponent of the leading digit that is not. -/
  positionalBelow : Int
  /-- A whole number written positionally ends in this. -/
  wholeEnding : String
  exponentMark : String
  exponentWidth : Nat

namespace DecimalLayout

def exponentText (layout : DecimalLayout) (k : Int) : String :=
  let digits := Nat.repr k.natAbs
  let zeros := String.ofList (List.replicate (layout.exponentWidth - digits.length) '0')
  layout.exponentMark ++ (if k < 0 then "-" else "+") ++ zeros ++ digits

def text (layout : DecimalLayout) (d : ShortDecimal) : String :=
  let digits := Nat.toDigits 10 d.digits
  let lead : Int := d.exponent + digits.length - 1
  if layout.positionalFrom ≤ lead ∧ lead < layout.positionalBelow then
    if 0 ≤ d.exponent then
      String.ofList (digits ++ List.replicate d.exponent.toNat '0') ++ layout.wholeEnding
    else if 0 ≤ lead then
      let whole := lead.toNat + 1
      String.ofList (digits.take whole ++ '.' :: digits.drop whole)
    else
      String.ofList ('0' :: '.' :: List.replicate (-lead - 1).toNat '0' ++ digits)
  else
    let fraction := if digits.length ≤ 1 then [] else '.' :: digits.drop 1
    String.ofList (digits.take 1 ++ fraction) ++ layout.exponentText lead

end DecimalLayout

/-- Doubles are positional from `0.0001` to below `10 ^ 16`, a whole one keeps a
zero after the point, and exponents have a sign and two digits. -/
def floatLayout : DecimalLayout := ⟨-4, 16, ".0", "e", 2⟩

def Binary.text : Binary → String
  | .finite negative significand scale =>
    let magnitude :=
      if significand = 0 then "0" ++ floatLayout.wholeEnding
      else floatLayout.text (shortest significand scale)
    if negative then "-" ++ magnitude else magnitude
  | .infinity negative => if negative then "-inf" else "inf"
  | .notANumber => "nan"

def floatText (x : Float) : String := (Binary.ofFloat x).text

end QuantityCalculus
