import JsonShape.Text.Unprintable

/-!
# Quotations in messages

A message that quotes a text shows it on one line and unambiguously: the enclosing quote and the
backslash are escaped, line feed, carriage return, tab and NUL have short escapes, and what cannot
be shown is given by its code point. A text stands in double quotes, a single character in single
quotes, and each kind of quote is escaped only inside itself.
-/

namespace JsonShape

namespace Text

/-- A character inside a quotation that is enclosed by `delimiter`. -/
def quotedChar (delimiter character : Char) : List Char :=
  if character = delimiter || character = '\\' then ['\\', character]
  else if character = '\x00' then ['\\', '0']
  else if character = '\t' then ['\\', 't']
  else if character = '\n' then ['\\', 'n']
  else if character = '\r' then ['\\', 'r']
  else if isUnprintable character then
    '\\' :: 'u' :: '\x7b' :: (Nat.toDigits 16 character.toNat ++ ['\x7d'])
  else [character]

def quoteString (text : String) : String :=
  String.ofList ('"' :: (text.toList.flatMap (quotedChar '"') ++ ['"']))

def quoteChar (character : Char) : String :=
  String.ofList ('\'' :: (quotedChar '\'' character ++ ['\'']))

end Text

end JsonShape
