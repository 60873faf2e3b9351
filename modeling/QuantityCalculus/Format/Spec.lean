import QuantityCalculus.Error
import QuantityCalculus.Text.DecimalDigit

/-!
# Format specifications

A specification tells how wide a field is and how it is filled, which sign is shown,
how digits are grouped and how many there are, and which notation is used. Its parts
come in a fixed order, and each may be left out.
-/
namespace QuantityCalculus

open scoped NaturalPowers

inductive Alignment where
  | left
  | right
  | center
  /-- The sign on the left, the digits on the right. -/
  | afterSign
  deriving DecidableEq, Repr

inductive SignRule where
  | nothing
  | plus
  | space
  deriving DecidableEq, Repr

structure FormatSpec where
  fill : Option Char := none
  alignment : Option Alignment := none
  sign : Option SignRule := none
  /-- A zero loses its sign. -/
  unsignedZero : Bool := false
  /-- A notation shows what it may leave out. -/
  alternate : Bool := false
  /-- The field is filled with zeros. -/
  zeros : Bool := false
  width : Option Nat := none
  groupMark : Option Char := none
  precision : Option Nat := none
  style : Option Char := none

namespace FormatSpec

def alignmentOf? : Char → Option Alignment
  | '<' => some .left
  | '>' => some .right
  | '^' => some .center
  | '=' => some .afterSign
  | _ => none

def signOf? : Char → Option SignRule
  | '-' => some .nothing
  | '+' => some .plus
  | ' ' => some .space
  | _ => none

def accept (c : Char) : List Char → Bool × List Char
  | d :: rest => if c = d then (true, rest) else (false, d :: rest)
  | [] => (false, [])

def takeAlignment : List Char → Option Char × Option Alignment × List Char
  | c :: d :: rest =>
    match alignmentOf? d, alignmentOf? c with
    | some a, _ => (some c, some a, rest)
    | none, some a => (none, some a, d :: rest)
    | none, none => (none, none, c :: d :: rest)
  | [c] =>
    match alignmentOf? c with
    | some a => (none, some a, [])
    | none => (none, none, [c])
  | [] => (none, none, [])

def takeSign : List Char → Option SignRule × List Char
  | c :: rest =>
    match signOf? c with
    | some s => (some s, rest)
    | none => (none, c :: rest)
  | [] => (none, [])

def digitsFrom : List Char → List Nat × List Char
  | c :: rest =>
    match Text.decimalDigit? c with
    | some d =>
      let (digits, tail) := digitsFrom rest
      (d :: digits, tail)
    | none => ([], c :: rest)
  | [] => ([], [])

/-- A number of at most 63 binary digits, if digits come next. -/
def takeNumber (cs : List Char) : Except Error (Option Nat × List Char) :=
  match digitsFrom cs with
  | ([], rest) => .ok (none, rest)
  | (digits, rest) =>
    let n := digits.foldl (fun n d => 10 * n + d) 0
    if n < 2 ^ (63 : Nat) then .ok (some n, rest) else .error .improperValue

def takePrecision : List Char → Except Error (Option Nat × List Char)
  | '.' :: rest => do
    match ← takeNumber rest with
    | (some n, tail) => .ok (some n, tail)
    | (none, _) => .error .improperValue
  | cs => .ok (none, cs)

/-- The specification that a text is. Two group marks exclude each other, and at the end at
most one character may be left, the notation. -/
def ofText (s : String) : Except Error FormatSpec := do
  let (fill, alignment, cs) := takeAlignment s.toList
  let (sign, cs) := takeSign cs
  let (unsignedZero, cs) := accept 'z' cs
  let (alternate, cs) := accept '#' cs
  let (zeros, cs) := if fill.isNone then accept '0' cs else (false, cs)
  let (width, cs) ← takeNumber cs
  let (comma, cs) := accept ',' cs
  let (underscore, cs) := accept '_' cs
  let (precision, cs) ← takePrecision cs
  let groupMark := if comma then some ',' else if underscore then some '_' else none
  if comma && underscore then .error .improperValue
  else
    match cs with
    | [] => .ok { fill, alignment, sign, unsignedZero, alternate, zeros, width, groupMark, precision }
    | [c] =>
      .ok { fill, alignment, sign, unsignedZero, alternate, zeros, width, groupMark, precision,
            style := some c }
    | _ => .error .improperValue

end FormatSpec

end QuantityCalculus
