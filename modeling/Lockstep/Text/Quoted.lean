import Lockstep.Text.Glyph

/-!
# Quoted texts

Printed lists and error messages show a text between double quotes.  Quotes and backslashes are
escaped, and so is every character without a glyph of its own: the common controls by a letter, the
others by their code point, as in `\u{301}`.

* `escape` is the text of one character;
* `quoted` is the text of a string.
-/

namespace Lockstep.Text

/-- One character of a quoted text. -/
def escape (c : Char) : List Char :=
  if c = '"' then ['\\', '"']
  else if c = '\\' then ['\\', '\\']
  else if c = '\n' then ['\\', 'n']
  else if c = '\r' then ['\\', 'r']
  else if c = '\t' then ['\\', 't']
  else if c.toNat = 0 then ['\\', '0']
  else if hasGlyph c then [c]
  else '\\' :: 'u' :: '\x7b' :: Nat.toDigits 16 c.toNat ++ ['\x7d']

/-- A text between double quotes. -/
def quoted (cs : List Char) : List Char := '"' :: cs.flatMap escape ++ ['"']

/-- A string between double quotes. -/
def quotedString (s : String) : String := String.ofList (quoted s.toList)

end Lockstep.Text
