import JsonShape.Check.Token
import JsonShape.Text.Slices

/-!
# Splitting a source byte by byte

`Token.scanBytes` splits a source into tokens without decoding it. It goes through the bytes of the
source, compares each with ASCII characters, and cuts the texts of words and literals out of the
source. Inside a literal, the byte behind a backslash is skipped unseen, whether it is a character
or only the first byte of one.

Cutting can fail: a slice that begins or ends inside a character stops the splitting with
`Stop.divided`, which is told apart from all errors of the source.
-/

namespace JsonShape

namespace Check

namespace Token

/-- Why the splitting of a source stops early. -/
inductive Stop
  | error (error : Error)
  /-- A slice that was needed for the token at this offset begins or ends inside a character. -/
  | divided (offset : Nat)
  deriving Repr, DecidableEq

/-- The number of bytes in front of the quote that closes a literal. -/
def closingQuote? : List UInt8 → Option Nat
  | [] => none
  | byte :: rest =>
      if Char.ofUInt8 byte = '"' then some 0
      else if Char.ofUInt8 byte = '\\' then
        match rest with
        | [] => none
        | _ :: rest => (closingQuote? rest).map (· + 2)
      else (closingQuote? rest).map (· + 1)

/-- The string that a literal with its quotes stands for. -/
def ofLiteral? : List Char → Option String
  | '"' :: body =>
      match Json.Quoted.read body with
      | .ok (characters, _, []) => some (String.ofList characters)
      | _ => none
  | _ => none

/-- The source cannot go on with the character at an offset. -/
def unexpected (source : List Char) (offset : Nat) : Stop :=
  match Text.cut? offset source with
  | none => .divided offset
  | some (_, []) => .error (.unexpectedChar offset '\x00')
  | some (_, found :: _) => .error (.unexpectedChar offset found)

/-- The literal that begins at an offset, where `rest` are the bytes behind its opening quote, and
the number of further bytes that it takes. -/
def literalBytes (source : List Char) (offset : Nat) (rest : List UInt8) :
    Except Stop (Token × Nat) :=
  match closingQuote? rest with
  | none => .error (.error (.invalidString offset))
  | some length =>
      match Text.slice? source offset (length + 2) with
      | none => .error (.divided offset)
      | some literal =>
          match ofLiteral? literal with
          | none => .error (.error (.invalidString offset))
          | some value => .ok (.text value, length + 1)

/-- The word that begins at an offset, where `rest` are the bytes behind its first, and the number of
further bytes that it takes. -/
def wordBytes (source : List Char) (offset : Nat) (rest : List UInt8) :
    Except Stop (Token × Nat) :=
  let more := (rest.takeWhile fun byte => isWordPart (Char.ofUInt8 byte)).length
  match Text.slice? source offset (more + 1) with
  | none => .error (.divided offset)
  | some word => .ok (ofWord (String.ofList word), more)

/-- Reads the token that begins with a given byte at a given offset: the token, and the number of
further bytes that it takes. -/
def readBytes (source : List Char) (offset : Nat) (first : UInt8) (rest : List UInt8) :
    Except Stop (Token × Nat) :=
  match Char.ofUInt8 first with
  | '(' => .ok (.openParen, 0)
  | ')' => .ok (.closeParen, 0)
  | '[' => .ok (.openBracket, 0)
  | ']' => .ok (.closeBracket, 0)
  | '?' => .ok (.question, 0)
  | ':' => .ok (.colon, 0)
  | ',' => .ok (.comma, 0)
  | '!' => .ok (.not, 0)
  | '&' =>
      if (rest.take 1).map Char.ofUInt8 = ['&'] then .ok (.and, 1)
      else .error (unexpected source offset)
  | '=' =>
      if (rest.take 2).map Char.ofUInt8 = ['=', '='] then .ok (.same, 2) else .ok (.assign, 0)
  | '"' => literalBytes source offset rest
  | other =>
      if isWordStart other then wordBytes source offset rest
      else .error (unexpected source offset)

/-- The tokens of a source from a given offset on, where `bytes` are those that are left, behind the
tokens already found, latest first. -/
def scanBytesFrom (source : List Char) (found : List Located) (offset : Nat) (bytes : List UInt8) :
    Except Stop (List Located) :=
  match bytes with
  | [] => .ok found.reverse
  | first :: rest =>
      if isBlank (Char.ofUInt8 first) then scanBytesFrom source found (offset + 1) rest
      else
        match readBytes source offset first rest with
        | .error stop => .error stop
        | .ok (token, more) =>
            scanBytesFrom source (⟨offset, token⟩ :: found) (offset + 1 + more) (rest.drop more)
termination_by bytes.length
decreasing_by
  · simp
  · simp only [List.length_drop, List.length_cons]
    omega

def scanBytes (source : List Char) : Except Stop (List Located) :=
  scanBytesFrom source [] 0 (Text.bytes source)

end Token

end Check

end JsonShape
