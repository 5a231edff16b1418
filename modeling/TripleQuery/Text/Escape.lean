import TripleQuery.Text.Printable

/-!
# Escaped text

Two ways to write a text between quotes. `escapeAscii` keeps printable ASCII only, which is how
the lexical form of a literal is shown. `quoted` keeps every printable character, which is how a
name is shown in a message.
-/

namespace TripleQuery.Text

/-- A character written as its code point in hexadecimal, between braces. -/
def codePointEscape (c : Char) : List Char :=
  '\\' :: 'u' :: '\x7b' :: (Nat.toDigits 16 c.toNat ++ ['\x7d'])

/-- One character of a literal's lexical form. -/
def escapeAsciiChar (c : Char) : List Char :=
  if c = '\t' then ['\\', 't']
  else if c = '\r' then ['\\', 'r']
  else if c = '\n' then ['\\', 'n']
  else if c = '\\' ∨ c = '\'' ∨ c = '"' then ['\\', c]
  else if 0x20 ≤ c.toNat ∧ c.toNat ≤ 0x7e then [c]
  else codePointEscape c

/-- A text in printable ASCII, with both kinds of quote escaped. -/
def escapeAscii (s : String) : String :=
  String.ofList (s.toList.flatMap escapeAsciiChar)

/-- One character of a quoted name. -/
def quotedChar (c : Char) : List Char :=
  if c = '\x00' then ['\\', '0']
  else if c = '\t' then ['\\', 't']
  else if c = '\r' then ['\\', 'r']
  else if c = '\n' then ['\\', 'n']
  else if c = '\\' ∨ c = '"' then ['\\', c]
  else if isPrintable c then [c]
  else codePointEscape c

/-- A name between double quotes. -/
def quoted (s : String) : String :=
  String.ofList ('"' :: (s.toList.flatMap quotedChar ++ ['"']))

end TripleQuery.Text
