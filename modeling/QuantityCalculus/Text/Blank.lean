/-!
# Blank characters

A unit expression may be spaced freely, and the words that select a rendering
may be surrounded by blanks. Both rules use one set of characters: the
separators and controls that text processing treats as space.
-/
namespace QuantityCalculus.Text

/-- The code points of the blank characters, as closed ranges. -/
def blankRanges : List (Nat × Nat) :=
  [(0x09, 0x0D), (0x1C, 0x20), (0x85, 0x85), (0xA0, 0xA0), (0x1680, 0x1680),
   (0x2000, 0x200A), (0x2028, 0x2029), (0x202F, 0x202F), (0x205F, 0x205F), (0x3000, 0x3000)]

def isBlank (c : Char) : Bool :=
  blankRanges.any fun (first, last) => first ≤ c.toNat && c.toNat ≤ last

def squeeze (cs : List Char) : List Char :=
  cs.filter fun c => !isBlank c

def trim (cs : List Char) : List Char :=
  ((cs.dropWhile isBlank).reverse.dropWhile isBlank).reverse

@[simp] theorem squeeze_nil : squeeze [] = [] := rfl

@[simp] theorem squeeze_append (cs ds : List Char) :
    squeeze (cs ++ ds) = squeeze cs ++ squeeze ds := by
  simp [squeeze]

@[simp] theorem squeeze_squeeze (cs : List Char) : squeeze (squeeze cs) = squeeze cs := by
  simp [squeeze]

end QuantityCalculus.Text
