import JsonShape.Json.Document

/-!
# JSON values as texts

`Json.ofText?` reads a complete text, nested to any depth, and `Json.render` writes a value
without blanks.
-/

namespace JsonShape

namespace Json

/-- The value that a text says, if the text is JSON from its first to its last character. -/
def ofText? (text : String) : Option Json :=
  match Document.ofText none text with
  | ⟨document, none⟩ => ofDocument? document
  | ⟨_, some _⟩ => none

mutual

/-- Writes a value, without blanks, behind a text. -/
def renderAfter (text : String) : Json → String
  | .null => text ++ "null"
  | .bool true => text ++ "true"
  | .bool false => text ++ "false"
  | .number value => text ++ value.render
  | .string value => text ++ Quoted.encode value
  | .array [] => text ++ "[]"
  | .array (item :: rest) => renderItemsAfter (renderAfter (text ++ "[") item) rest
  | .object [] => text ++ "\x7b\x7d"
  | .object ((name, value) :: rest) =>
      renderMembersAfter (renderAfter (text ++ "\x7b" ++ Quoted.encode name ++ ":") value) rest

/-- Writes the items of an array that follow the first, and the closing bracket. -/
def renderItemsAfter (text : String) : List Json → String
  | [] => text ++ "]"
  | item :: rest => renderItemsAfter (renderAfter (text ++ ",") item) rest

/-- Writes the members of an object that follow the first, and the closing brace. -/
def renderMembersAfter (text : String) : List (String × Json) → String
  | [] => text ++ "\x7d"
  | (name, value) :: rest =>
      renderMembersAfter (renderAfter (text ++ "," ++ Quoted.encode name ++ ":") value) rest

end

def render (value : Json) : String :=
  renderAfter "" value

end Json

end JsonShape
