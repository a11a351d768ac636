import PetriCcs.Text.Printable

/-! # Escaped and quoted text

How a text is shown inside a message or a document: `quoted` puts it between double quotes and
escapes what would end it or could not be seen.  The escapes are shared; which kind of quote has
to be escaped is the caller's choice. -/

namespace PetriCcs.Text

/-- Lower-case hexadecimal digits without padding. -/
def hexDigits (n : Nat) : List Char := Nat.toDigits 16 n

/-- A character by its code point, `\u` and the hexadecimal digits in braces. -/
def codePointEscape (c : Char) : List Char :=
  ['\\', 'u', '\x7b'] ++ hexDigits c.toNat ++ ['\x7d']

/-- The escape of one character, where `quotes` are the quote signs that need one. -/
def escapeChar (quotes : List Char) (c : Char) : List Char :=
  if c = '\x00' then ['\\', '0']
  else if c = '\t' then ['\\', 't']
  else if c = '\r' then ['\\', 'r']
  else if c = '\n' then ['\\', 'n']
  else if c = '\\' then ['\\', '\\']
  else if quotes.contains c then ['\\', c]
  else if isCombining c || !isPrintable c then codePointEscape c
  else [c]

/-- A text between double quotes, with double quotes and backslashes escaped. -/
def quoted (text : String) : String :=
  String.ofList ('"' :: text.toList.flatMap (escapeChar ['"']) ++ ['"'])

end PetriCcs.Text
