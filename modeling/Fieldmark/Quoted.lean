import Fieldmark.Printable

/-!
# Quoted texts

A text between double quotes in which everything that has no mark of its own on paper is written
as an escape, and lists of such texts.
-/

namespace Fieldmark

/-- A number in lower-case hexadecimal digits. -/
private def hexText (n : Nat) : String := String.ofList (Nat.toDigits 16 n)

/-- The quoted form of one character. -/
def quotedChar (c : Char) : String :=
  if c = '\x00' then "\\0"
  else if c = '\t' then "\\t"
  else if c = '\r' then "\\r"
  else if c = '\n' then "\\n"
  else if c = '\\' then "\\\\"
  else if c = '"' then "\\\""
  else if extendsGrapheme c || !isPrintable c then "\\u\x7b" ++ hexText c.toNat ++ "\x7d"
  else String.singleton c

/-- A text between double quotes. -/
def quoted (text : String) : String := "\"" ++ String.join (text.toList.map quotedChar) ++ "\""

/-- Quoted texts in brackets, separated by commas. -/
def quotedList (texts : List String) : String :=
  "[" ++ String.intercalate ", " (texts.map quoted) ++ "]"

end Fieldmark
