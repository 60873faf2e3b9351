import QuantityCalculus.Format.Spec

/-!
# Fields

A field holds a number in parts: its sign, a mark of its base, the digits of its whole
part, which may be grouped, and all that follows. A field that is too narrow for its
width is filled in one place. Zeros that fill it between sign and digits count as
digits and are grouped with them.
-/
namespace QuantityCalculus

structure NumberParts where
  negative : Bool
  mark : String := ""
  /-- The digits of the whole part; special numbers have none. -/
  whole : List Char
  /-- From the point on, or the name of a special number. -/
  rest : List Char

namespace Format

def align (alignment : Alignment) (fill : Char) (width : Nat) (start body : List Char) : List Char :=
  let missing := width - (start.length + body.length)
  let padding (k : Nat) : List Char := List.replicate k fill
  match alignment with
  | .left => start ++ body ++ padding missing
  | .right => padding missing ++ start ++ body
  | .center => padding (missing / 2) ++ start ++ body ++ padding (missing - missing / 2)
  | .afterSign => start ++ padding missing ++ body

/-- Digits in groups from the last one on, both last first, with zeros in front up to a
least width that counts the marks. A mark is followed by at least one digit. -/
def group (size : Nat) (mark : Char) : (fuel : Nat) → (digits : List Char) → (width : Int) → List Char
  | 0, digits, _ => digits
  | fuel + 1, digits, width =>
    let taken := digits.take size
    let others := digits.drop size
    let count := max taken.length (min size (max width.toNat 1))
    let chunk := taken ++ List.replicate (count - taken.length) '0'
    let left := width - count
    if others.isEmpty && left ≤ 0 then chunk else chunk ++ mark :: group size mark fuel others (left - 1)

/-- The digits of a whole part with zeros in front and marks between groups. -/
def wholeText (grouping : Option (Nat × Char)) (digits : List Char) (width : Int) : List Char :=
  match digits, grouping with
  | [], _ => []
  | _, some (size, mark) => (group size mark (digits.length + width.toNat) digits.reverse width).reverse
  | _, none => List.replicate (width.toNat - digits.length) '0' ++ digits

def signText (rule : SignRule) (negative : Bool) : List Char :=
  if negative then ['-']
  else
    match rule with
    | .nothing => []
    | .plus => ['+']
    | .space => [' ']

def field (zeros : Bool) (fill : Char) (alignment : Alignment) (rule : SignRule) (width : Nat)
    (grouping : Option (Nat × Char)) (parts : NumberParts) : String :=
  let start := signText rule parts.negative ++ parts.mark.toList
  let room : Int := width - (start.length + parts.rest.length : Nat)
  let body := wholeText grouping parts.whole (if zeros then room else 0) ++ parts.rest
  String.ofList (align alignment fill width start body)

end Format

namespace FormatSpec

/-- The character to fill with, which a zero in front of the width sets too. -/
def fillOr (spec : FormatSpec) (standard : Char) : Char :=
  spec.fill.getD (if spec.zeros then '0' else standard)

def numberAlignment (spec : FormatSpec) : Alignment :=
  spec.alignment.getD (if spec.zeros then .afterSign else .right)

def signRule (spec : FormatSpec) : SignRule := spec.sign.getD .nothing

def hasRoom (spec : FormatSpec) : Bool := spec.width.getD 0 ≤ roomLimit

def field (spec : FormatSpec) (grouping : Option (Nat × Char)) (parts : NumberParts) :
    Except Error String :=
  let fill := spec.fillOr ' '
  if spec.hasRoom then
    .ok (Format.field (fill == '0' && spec.numberAlignment == .afterSign) fill spec.numberAlignment
      spec.signRule (spec.width.getD 0) grouping parts)
  else
    .error .outOfMemory

end FormatSpec

end QuantityCalculus
