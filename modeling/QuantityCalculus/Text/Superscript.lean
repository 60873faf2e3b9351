/-!
# Superscripts

Exponents of the pretty rendering are raised digits. A raised text differs from
every text of plain digits, because no plain character is the raised form of
another one.
-/
namespace QuantityCalculus.Text

/-- The raised form of a digit or of the minus sign; other characters stay. -/
def raise : Char → Char
  | '0' => '⁰' | '1' => '¹' | '2' => '²' | '3' => '³' | '4' => '⁴'
  | '5' => '⁵' | '6' => '⁶' | '7' => '⁷' | '8' => '⁸' | '9' => '⁹'
  | '-' => '⁻'
  | c => c

def superscript (s : String) : String :=
  String.ofList (s.toList.map raise)

@[simp] theorem toList_superscript (s : String) : (superscript s).toList = s.toList.map raise := by
  simp [superscript]

end QuantityCalculus.Text
