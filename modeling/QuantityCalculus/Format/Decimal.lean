import QuantityCalculus.Format.Field
import QuantityCalculus.Number.DecimalRounding

/-!
# Notations of decimals

A decimal is written with its own digits: in its usual text, always with an exponent, or
never with one. A precision rounds it. Specifications of decimals have fewer parts than
those of other numbers: a width does not begin with a zero, and zeros that fill a field
exclude an alignment. There are two forms of them, of which the first that fits is meant.
-/
namespace QuantityCalculus

open scoped NaturalPowers

inductive DecimalNotation where
  | usual
  | exponent
  | fixed
  /-- A hundred times the number, without an exponent. -/
  | percent
  deriving DecidableEq, Repr

/-- The two forms of specifications. The extended one has digits of every script and may
ask for a zero without sign and for a bare point, but has no capital letter for the custom
of a place and no precision that begins with a zero. -/
inductive DecimalSpecForm where
  | basic
  | extended
  deriving DecidableEq, Repr

structure DecimalSpec where
  form : DecimalSpecForm := .basic
  fill : Char := ' '
  alignment : Alignment := .right
  sign : SignRule := .nothing
  unsignedZero : Bool := false
  alternate : Bool := false
  zeros : Bool := false
  width : Nat := 0
  grouped : Bool := false
  precision : Option Nat := none
  style : DecimalNotation := .usual
  upper : Bool := true

namespace DecimalSpec

def sizeLimit : Nat := 10 ^ (18 : Nat) - 1

def digitOf? (form : DecimalSpecForm) (c : Char) : Option Nat :=
  match form with
  | .basic => if c.isDigit then Text.decimalDigit? c else none
  | .extended => Text.decimalDigit? c

/-- A number, if digits come next; in the basic form it has at most 63 binary digits. -/
def takeNumber (form : DecimalSpecForm) (cs : List Char) : Option (Option Nat × List Char) :=
  let digits := cs.takeWhile fun c => (digitOf? form c).isSome
  if digits.isEmpty then some (none, cs)
  else
    let n := (digits.filterMap (digitOf? form)).foldl (fun n d => 10 * n + d) 0
    if form = .extended ∨ n < 2 ^ (63 : Nat) then some (some n, cs.drop digits.length) else none

def takeWidth (form : DecimalSpecForm) : List Char → Option (Nat × List Char)
  | '0' :: _ => none
  | cs => (takeNumber form cs).map fun (n, rest) => (n.getD 0, rest)

def takePrecision (form : DecimalSpecForm) : List Char → Option (Option Nat × List Char)
  | '.' :: '0' :: rest =>
    if form = .extended then some (some 0, rest) else takeNumber form ('0' :: rest)
  | '.' :: rest => do
    match ← takeNumber form rest with
    | (some n, tail) => some (some n, tail)
    | (none, _) => none
  | cs => some (none, cs)

/-- The notation that a letter stands for, and whether the exponent has a capital mark. No
place has a custom of groups, and none may be asked for beside the custom of a place. -/
def notationOf? (form : DecimalSpecForm) (grouped : Bool) :
    List Char → Option (DecimalNotation × Bool)
  | [] | ['G'] => some (.usual, true)
  | ['g'] => some (.usual, false)
  | ['E'] => some (.exponent, true)
  | ['e'] => some (.exponent, false)
  | ['F'] | ['f'] => some (.fixed, true)
  | ['%'] => some (.percent, true)
  | ['N'] => if grouped ∨ form = .extended then none else some (.usual, true)
  | ['n'] => if grouped then none else some (.usual, false)
  | _ => none

def ofForm? (form : DecimalSpecForm) (s : String) : Option DecimalSpec := do
  let (fill, alignment, cs) := FormatSpec.takeAlignment s.toList
  let (sign, cs) := FormatSpec.takeSign cs
  let (unsignedZero, cs) := if form = .extended then FormatSpec.accept 'z' cs else (false, cs)
  let (alternate, cs) := if form = .extended then FormatSpec.accept '#' cs else (false, cs)
  let (zeros, cs) := FormatSpec.accept '0' cs
  let (width, cs) ← takeWidth form cs
  let (grouped, cs) := FormatSpec.accept ',' cs
  let (precision, cs) ← takePrecision form cs
  let (style, upper) ← notationOf? form grouped cs
  if zeros && alignment.isSome then none
  else
    some { form, fill := fill.getD ' ', alignment := alignment.getD .right,
           sign := sign.getD .nothing, unsignedZero, alternate, zeros, width, grouped, precision,
           style, upper }

def ofText (s : String) : Except Error DecimalSpec :=
  match ofForm? .basic s <|> ofForm? .extended s with
  | some spec => .ok spec
  | none => .error .improperValue

def sizeFault (spec : DecimalSpec) (n : Nat) : Error :=
  match spec.form with
  | .basic => if n ≤ sizeLimit then .outOfMemory else .improperValue
  | .extended => if n < 2 ^ (63 : Nat) then .outOfMemory else .overflow

def checkSize (spec : DecimalSpec) (n : Nat) : Except Error Unit :=
  if n ≤ roomLimit then .ok () else .error (spec.sizeFault n)

end DecimalSpec

namespace Decimal

/-- The digits of a coefficient at another exponent, rounded; zero has a single one. -/
def rescaledDigits (c : Nat) (e target : Int) : List Char :=
  if c = 0 then ['0']
  else if target ≤ e then Nat.toDigits 10 c ++ List.replicate (e - target).toNat '0'
  else Nat.toDigits 10 (dropDigits c (target - e).toNat)

/-- The digits that are shown and their exponent. A precision counts digits in the usual
text, where it adds none, and places behind the point otherwise. -/
def shownDigits (style : DecimalNotation) (precision : Option Nat) (c : Nat) (e : Int) :
    List Char × Int :=
  match style, precision with
  | .usual, some p =>
    let (c, e) := if max p 1 < digitCount c then toPlaces (max p 1) c e else (c, e)
    (Nat.toDigits 10 c, e)
  | .exponent, some p =>
    if c = 0 then (['0'], e)
    else
      let (c, e) := toPlaces (p + 1) c e
      let target := e + digitCount c - (p + 1)
      (rescaledDigits c e target, target)
  | .fixed, some p | .percent, some p => (rescaledDigits c e (-p), -p)
  | .fixed, none | .percent, none => if c = 0 ∧ 0 < e then (['0'], 0) else (Nat.toDigits 10 c, e)
  | _, none => (Nat.toDigits 10 c, e)

def splitAt (digits : List Char) (whole : Int) : List Char × List Char :=
  if whole ≤ 0 then (['0'], List.replicate (-whole).toNat '0' ++ digits)
  else
    (digits.take whole.toNat ++ List.replicate (whole.toNat - digits.length) '0',
     digits.drop whole.toNat)

/-- How many digits stand before the point if there is an exponent: one, but those of zero stand
behind as many places as a precision asks for. -/
def firstPlace (spec : DecimalSpec) (digits : List Char) : Int :=
  match spec.style, spec.precision with
  | .exponent, some p => if digits == ['0'] then 1 - p else 1
  | _, _ => 1

def finiteParts (spec : DecimalSpec) (negative : Bool) (c : Nat) (e : Int) : NumberParts :=
  let scaled := if spec.style = .percent then e + 2 else e
  let (digits, e) := shownDigits spec.style spec.precision c scaled
  let first := firstPlace spec digits
  let lead := e + digits.length
  let positional :=
    match spec.style with
    | .usual => decide (e ≤ 0 ∧ -6 < lead)
    | .exponent => false
    | .fixed | .percent => true
  let (whole, fraction) := splitAt digits (if positional then lead else first)
  let power := lead - first
  { negative := negative && !(spec.unsignedZero && digits.all (· == '0'))
    whole
    rest :=
      (if fraction.isEmpty && !spec.alternate then [] else '.' :: fraction)
        ++ (if positional || power == 0 && spec.style != .exponent then []
          else (if spec.upper then 'E' else 'e') :: (if power < 0 then '-' else '+')
            :: Nat.toDigits 10 power.natAbs)
        ++ (if spec.style = .percent then ['%'] else []) }

def sizeFor (spec : DecimalSpec) (c : Nat) (e : Int) : Nat :=
  match spec.style, spec.precision with
  | .usual, p => if spec.form = .basic ∧ DecimalSpec.sizeLimit < p.getD 0 then p.getD 0 else 0
  | .exponent, p => p.getD 0
  | .fixed, some p | .percent, some p => if c = 0 then p else p + e.toNat
  | .fixed, none | .percent, none => if c = 0 then (-e).toNat else e.natAbs

/-- A special decimal in a field; zeros do not fill it. -/
def specialField (spec : DecimalSpec) (negative : Bool) (name : String) : String :=
  let rest := name.toList ++ if spec.style = .percent then ['%'] else []
  Format.field false spec.fill spec.alignment spec.sign spec.width none
    { negative, whole := [], rest }

def field (d : Decimal) (spec : DecimalSpec) : Except Error String := do
  spec.checkSize spec.width
  match d with
  | finite negative c e =>
    spec.checkSize (sizeFor spec c e)
    let grouping := if spec.grouped then some (3, ',') else none
    let fill := if spec.zeros then '0' else spec.fill
    let alignment := if spec.zeros then .afterSign else spec.alignment
    .ok (Format.field spec.zeros fill alignment spec.sign spec.width grouping
      (finiteParts spec negative c e))
  | infinity negative => .ok (specialField spec negative "Infinity")
  | notANumber negative _ _ =>
    .ok (specialField spec negative (if negative then String.ofList (d.text.toList.drop 1) else d.text))

end Decimal

end QuantityCalculus
