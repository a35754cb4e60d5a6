import JsonShape.Text.Quotation

/-!
# Why a check expression is refused

Every position is a byte offset into the source.
-/

namespace JsonShape

namespace Check

/-- Why a source is not a check expression. -/
inductive Error
  /-- No token begins with the character that stands here. -/
  | unexpectedChar (offset : Nat) (found : Char)
  /-- The string literal that opens here is not closed or is no JSON string. -/
  | invalidString (offset : Nat)
  /-- The token that starts here cannot stand where it does. -/
  | unexpectedToken (offset : Nat)
  /-- The source ends before the expression is complete. -/
  | unexpectedEnd
  /-- A `typeof` test names no type. -/
  | unknownType (name : String)
  /-- A path begins with a name that is not bound here. -/
  | unknownName (offset : Nat) (name : String)
  deriving Repr, DecidableEq

namespace Error

def message : Error → String
  | .unexpectedChar offset found =>
      "unexpected character " ++ Text.quoteChar found ++ " at offset " ++ toString offset
  | .invalidString offset => "malformed string literal at offset " ++ toString offset
  | .unexpectedToken offset => "unexpected token at offset " ++ toString offset
  | .unexpectedEnd => "unexpected end of input"
  | .unknownType name => "unknown type name " ++ Text.quoteString name
  | .unknownName offset name =>
      "unknown name " ++ Text.quoteString name ++ " at offset " ++ toString offset

end Error

end Check

end JsonShape
