import QuantityCalculus.Error
import QuantityCalculus.Text.Blank
import QuantityCalculus.UnitExpr.Token

/-!
# Reading unit expressions

Blanks are removed first, wherever they stand. The rest is cut into tokens from
left to right; a name and the digits of an exponent extend as far as they can. The
first place where no token fits stops the reading, and the error tells that place.
-/
namespace QuantityCalculus

namespace UnitExpr

/-- Where and why the cutting stops: the text from the fault on. -/
structure Stop where
  fault : UnitFault
  rest : List Char
  deriving DecidableEq

def signOf : List Char → Bool × List Char
  | '-' :: rest => (true, rest)
  | cs => (false, cs)

def scanLiteral (cs : List Char) : Except UnitFault (Literal × List Char) :=
  let (negative, unsigned) := signOf cs
  let digits := unsigned.takeWhile Char.isDigit
  if digits = [] then .error .exponent
  else if Text.digitLimit < digits.length then .error .exponentSize
  else .ok (⟨negative, digits⟩, unsigned.dropWhile Char.isDigit)

def scanExponent : List Char → Except Stop (Option Literal × List Char)
  | '^' :: written =>
    match scanLiteral written with
    | .error fault => .error ⟨fault, written⟩
    | .ok (l, rest) => .ok (some l, rest)
  | cs => .ok (none, cs)

theorem length_dropWhile_le (p : Char → Bool) (cs : List Char) :
    (cs.dropWhile p).length ≤ cs.length :=
  (List.dropWhile_sublist p).length_le

theorem length_signOf_le (cs : List Char) : (signOf cs).2.length ≤ cs.length := by
  unfold signOf
  split <;> simp

theorem length_le_of_scanLiteral {cs rest : List Char} {l : Literal}
    (h : scanLiteral cs = .ok (l, rest)) : rest.length ≤ cs.length := by
  unfold scanLiteral at h
  dsimp only at h
  split at h
  · cases h
  · split at h
    · cases h
    · cases h
      exact Nat.le_trans (length_dropWhile_le _ _) (length_signOf_le cs)

theorem length_le_of_scanExponent {cs rest : List Char} {e : Option Literal}
    (h : scanExponent cs = .ok (e, rest)) : rest.length ≤ cs.length := by
  unfold scanExponent at h
  split at h
  · split at h
    · cases h
    · rename_i hliteral
      cases h
      exact Nat.le_succ_of_le (length_le_of_scanLiteral hliteral)
  · cases h
    exact Nat.le_refl _

/-- Cut a text without blanks into tokens. -/
def scan : List Char → Except Stop (List Token)
  | [] => .ok []
  | c :: rest =>
    if c = '*' then (scan rest).map (Token.multiply :: ·)
    else if c = '/' then (scan rest).map (Token.divide :: ·)
    else if isNameStart c then
      match h : scanExponent (rest.dropWhile isNameChar) with
      | .error stop => .error stop
      | .ok (exponent, after) =>
        have : after.length ≤ rest.length :=
          Nat.le_trans (length_le_of_scanExponent h) (length_dropWhile_le isNameChar rest)
        (scan after).map (Token.factor (c :: rest.takeWhile isNameChar) exponent :: ·)
    else .error ⟨.symbol c, c :: rest⟩
termination_by cs => cs.length

def read (text : String) : Except Error DimensionMap :=
  let squeezed := Text.squeeze text.toList
  match scan squeezed with
  | .ok tokens => .ok (meaning tokens)
  | .error stop => .error (.unreadableUnits stop.fault text (squeezed.length - stop.rest.length))

end UnitExpr

end QuantityCalculus
