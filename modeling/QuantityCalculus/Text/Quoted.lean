import QuantityCalculus.Text.Printable

/-!
# Quoted text

Messages show a text between quotes. The apostrophe is the mark unless the text
holds an apostrophe and no double quote, so that most texts need no escape. The
mark in use and the backslash are escaped, line breaks and tabs have short
escapes, and every other invisible character is written by its code point.
-/
namespace QuantityCalculus.Text

def hexadecimal (width : Nat) (n : Nat) : List Char :=
  let digits := Nat.toDigits 16 n
  List.replicate (width - digits.length) '0' ++ digits

def escapeInvisible (c : Char) : List Char :=
  let n := c.toNat
  if n < 0x100 then '\\' :: 'x' :: hexadecimal 2 n
  else if n < 0x10000 then '\\' :: 'u' :: hexadecimal 4 n
  else '\\' :: 'U' :: hexadecimal 8 n

def escapeWithin (mark c : Char) : List Char :=
  if c = mark ∨ c = '\\' then ['\\', c]
  else if c = '\n' then ['\\', 'n']
  else if c = '\r' then ['\\', 'r']
  else if c = '\t' then ['\\', 't']
  else if isVisible c then [c]
  else escapeInvisible c

def quoteMark (cs : List Char) : Char :=
  if cs.contains '\'' && !cs.contains '"' then '"' else '\''

def quoted (cs : List Char) : List Char :=
  let mark := quoteMark cs
  mark :: cs.flatMap (escapeWithin mark) ++ [mark]

def quote (s : String) : String :=
  String.ofList (quoted s.toList)

end QuantityCalculus.Text
