import QuantityCalculus.Format.Binary
import QuantityCalculus.Format.Decimal
import QuantityCalculus.Number.Arithmetic
import QuantityCalculus.Value.Basic

/-!
# Plain values as specified text

Texts and numbers other than ratios can be laid out by a specification. What the
notations of one kind of value do not provide for is refused. Without a specification
every value has its own text.
-/
namespace QuantityCalculus

open scoped NaturalPowers

namespace FormatSpec

/-- The groups of digits that are asked for, which the notation has to provide for; digits of
bases that are powers of two form groups of four with underscores. -/
def grouping (spec : FormatSpec) : Except Error (Option (Nat × Char)) :=
  match spec.groupMark, spec.style with
  | none, _ => .ok none
  | some mark, none => .ok (some (3, mark))
  | some mark, some c =>
    if c ∈ ['d', 'e', 'f', 'g', 'E', 'G', '%', 'F'] then .ok (some (3, mark))
    else if c ∈ ['b', 'o', 'x', 'X'] ∧ mark = '_' then .ok (some (4, mark))
    else .error .improperValue

/-- A text, of which a precision keeps the start. -/
def layText (spec : FormatSpec) (s : String) : Except Error String :=
  if spec.groupMark.isSome || spec.sign.isSome || spec.unsignedZero || spec.alternate
      || spec.alignment == some .afterSign || (spec.style != none && spec.style != some 's') then
    .error .improperValue
  else if !spec.hasRoom then .error .outOfMemory
  else
    let kept := match spec.precision with
      | some p => s.toList.take p
      | none => s.toList
    .ok (String.ofList (Format.align (spec.alignment.getD .left) (spec.fillOr ' ')
      (spec.width.getD 0) [] kept))

def floatNotation (spec : FormatSpec) : Except Error FloatNotation :=
  let places := spec.precision.getD 6
  if 2 ^ (31 : Nat) ≤ places then .error .improperValue
  else
    match spec.style with
    | none =>
      match spec.precision with
      | some p => .ok (.general (max p 1) true)
      | none => .ok .shortest
    | some c =>
      if c = 'e' ∨ c = 'E' then .ok (.exponent places)
      else if c = 'f' ∨ c = 'F' ∨ c = '%' then .ok (.fixed places)
      else if c = 'g' ∨ c = 'G' ∨ c = 'n' then .ok (.general (max places 1) false)
      else .error .improperValue

/-- A double; a percentage is a hundred times of it. -/
def layFloat (spec : FormatSpec) (x : Float) : Except Error String := do
  let grouping ← spec.grouping
  let style ← spec.floatNotation
  if roomLimit < spec.precision.getD 0 then .error .outOfMemory
  else
    let percent := spec.style == some '%'
    let upper := spec.style.any fun c => c ∈ ['E', 'F', 'G']
    let shown := Binary.ofFloat (if percent then x * 100 else x)
    let parts := shown.toParts style upper spec.alternate spec.unsignedZero
    spec.field grouping { parts with rest := parts.rest ++ if percent then ['%'] else [] }

/-- The base of digits, the mark in front of them, and whether letters are capital. -/
def baseOf? : Option Char → Option (Nat × String × Bool)
  | none | some 'd' | some 'n' => some (10, "", false)
  | some 'b' => some (2, "0b", false)
  | some 'o' => some (8, "0o", false)
  | some 'x' => some (16, "0x", false)
  | some 'X' => some (16, "0X", true)
  | _ => none

def layCharacter (spec : FormatSpec) (n : Int) : Except Error String :=
  if spec.precision.isSome || spec.unsignedZero || spec.sign.isSome || spec.alternate then
    .error .improperValue
  else if n < 0 ∨ 0x110000 ≤ n then .error .overflow
  else spec.field none { negative := false, whole := [], rest := [Char.ofNat n.toNat] }

def layInteger (spec : FormatSpec) (n : Int) : Except Error String := do
  let grouping ← spec.grouping
  if spec.style = some 'c' then spec.layCharacter n
  else
    match baseOf? spec.style with
    | some (base, mark, upper) =>
      if spec.precision.isSome || spec.unsignedZero then .error .improperValue
      else if base = 10 ∧ ¬Text.HasNumeral n then .error .numeralTooLong
      else
        let digits := Nat.toDigits base n.natAbs
        spec.field grouping
          { negative := n < 0
            mark := if spec.alternate then mark else ""
            whole := if upper then digits.map Char.toUpper else digits
            rest := [] }
    | none =>
      if spec.style.any fun c => c ∈ ['e', 'E', 'f', 'F', 'g', 'G', '%'] then
        spec.layFloat (← (Number.integer n).toFloat)
      else
        .error .improperValue

end FormatSpec

namespace Value

def formatted (v : Value) (specification : String) : Except Error String := do
  if specification.isEmpty then v.display
  else
    match v with
    | text s => (← FormatSpec.ofText specification).layText s
    | number a =>
      match a.widen with
      | .integer n => (← FormatSpec.ofText specification).layInteger n
      | .float x => (← FormatSpec.ofText specification).layFloat x
      | .decimal d => d.field (← DecimalSpec.ofText specification)
      | _ => .error .operandType
    | _ => .error .operandType

end Value

end QuantityCalculus
