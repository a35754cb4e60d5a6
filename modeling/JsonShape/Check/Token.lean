import JsonShape.Check.Error
import JsonShape.Json.Quoted

/-!
# Tokens of check expressions

`Token.scan` splits a source into tokens, each with the byte offset at which it starts. Blanks are
space, tab, line feed and carriage return. A word is a longest run of ASCII letters, digits and
underscores that does not begin with a digit; a few words are keywords, and every other word is a
name. `===` and `&&` are read before `=`, and a string is any literal that JSON allows.

The first place where no token can be read decides the error. `read_split` says that a token
covers the part of the source that its width counts.
-/

namespace JsonShape

namespace Check

/-- The words with a meaning of their own. -/
inductive Keyword
  | trueWord
  | falseWord
  | nullWord
  | undefinedWord
  | typeofWord
  | inWord
  | letWord
  | onlyKeysWord
  deriving Repr, DecidableEq

namespace Keyword

def spelling : Keyword → String
  | .trueWord => "true"
  | .falseWord => "false"
  | .nullWord => "null"
  | .undefinedWord => "undefined"
  | .typeofWord => "typeof"
  | .inWord => "in"
  | .letWord => "let"
  | .onlyKeysWord => "onlyKeys"

def all : List Keyword :=
  [.trueWord, .falseWord, .nullWord, .undefinedWord, .typeofWord, .inWord, .letWord, .onlyKeysWord]

def ofSpelling? (word : String) : Option Keyword :=
  all.find? fun keyword => keyword.spelling = word

@[simp]
theorem ofSpelling?_spelling (keyword : Keyword) :
    ofSpelling? keyword.spelling = some keyword := by
  cases keyword <;> decide

end Keyword

/-- A token of a check expression. -/
inductive Token
  | reserved (word : Keyword)
  | name (name : String)
  | text (value : String)
  | same
  | assign
  | and
  | not
  | question
  | colon
  | comma
  | openParen
  | closeParen
  | openBracket
  | closeBracket
  deriving Repr, DecidableEq

/-- A token and the byte offset at which it starts. -/
structure Located where
  offset : Nat
  token : Token
  deriving Repr, DecidableEq

namespace Token

/-- The characters that may stand between two tokens. -/
def isBlank (character : Char) : Bool :=
  character = ' ' || character = '\t' || character = '\n' || character = '\r'

/-- The characters that may begin a word: ASCII letters and the underscore. -/
def isWordStart (character : Char) : Bool :=
  ('a' ≤ character && character ≤ 'z') || ('A' ≤ character && character ≤ 'Z') ||
    character = '_'

/-- The characters that a word may go on with: those that may begin it, and ASCII digits. -/
def isWordPart (character : Char) : Bool :=
  isWordStart character || ('0' ≤ character && character ≤ '9')

def ofWord (word : String) : Token :=
  match Keyword.ofSpelling? word with
  | some keyword => .reserved keyword
  | none => .name word

/-- Reads the token that begins with a given character at a given offset: the token, its length in
bytes, and the source that follows. -/
def read (offset : Nat) (first : Char) (rest : List Char) :
    Except Error (Token × Nat × List Char) :=
  match first with
  | '(' => .ok (.openParen, 1, rest)
  | ')' => .ok (.closeParen, 1, rest)
  | '[' => .ok (.openBracket, 1, rest)
  | ']' => .ok (.closeBracket, 1, rest)
  | '?' => .ok (.question, 1, rest)
  | ':' => .ok (.colon, 1, rest)
  | ',' => .ok (.comma, 1, rest)
  | '!' => .ok (.not, 1, rest)
  | '&' =>
      match rest with
      | '&' :: rest => .ok (.and, 2, rest)
      | _ => .error (.unexpectedChar offset '&')
  | '=' =>
      match rest with
      | '=' :: '=' :: rest => .ok (.same, 3, rest)
      | _ => .ok (.assign, 1, rest)
  | '"' =>
      match Json.Quoted.read rest with
      | .ok (characters, width, rest) =>
          .ok (.text (String.ofList characters), width + 1, rest)
      | .error _ => .error (.invalidString offset)
  | _ =>
      if isWordStart first then
        .ok (ofWord (String.ofList (first :: rest.takeWhile isWordPart)),
          (rest.takeWhile isWordPart).length + 1, rest.dropWhile isWordPart)
      else .error (.unexpectedChar offset first)

theorem utf8Size_of_le {character last : Char} (bound : character ≤ last)
    (ascii : last.val.toNat ≤ 127) : character.utf8Size = 1 :=
  Char.utf8Size_eq_one_iff.2
    (UInt32.le_iff_toNat_le.2 (Nat.le_trans (UInt32.le_iff_toNat_le.1 bound) ascii))

theorem utf8Size_of_isWordPart {character : Char} (part : isWordPart character = true) :
    character.utf8Size = 1 := by
  simp only [isWordPart, isWordStart, Bool.or_eq_true, Bool.and_eq_true, decide_eq_true_eq] at part
  rcases part with ((lower | upper) | underscore) | digit
  · exact utf8Size_of_le lower.2 (by decide)
  · exact utf8Size_of_le upper.2 (by decide)
  · rw [underscore]
    decide
  · exact utf8Size_of_le digit.2 (by decide)

theorem isWordPart_of_isWordStart {character : Char} (start : isWordStart character = true) :
    isWordPart character = true := by
  rw [isWordPart, start, Bool.true_or]

theorem byteCount_eq_length {characters : List Char}
    (parts : ∀ character ∈ characters, isWordPart character = true) :
    Text.byteCount characters = characters.length := by
  induction characters with
  | nil => rfl
  | cons character rest ih =>
      rw [Text.byteCount_cons, utf8Size_of_isWordPart (parts character (by simp)),
        ih fun other member => parts other (by simp [member]), List.length_cons, Nat.add_comm]

/-- A token covers its first character and as many bytes as its width counts. -/
theorem read_split {offset : Nat} {first : Char} {rest tail : List Char} {token : Token}
    {width : Nat} (read : read offset first rest = .ok (token, width, tail)) :
    ∃ later, rest = later ++ tail ∧ Text.byteCount (first :: later) = width := by
  simp only [Token.read] at read
  split at read
  case h_9 =>
    split at read
    · simp only [Except.ok.injEq, Prod.mk.injEq] at read
      exact ⟨['&'], by simp [read.2.2], by rw [← read.2.1]; decide⟩
    · simp at read
  case h_10 =>
    split at read
    · simp only [Except.ok.injEq, Prod.mk.injEq] at read
      exact ⟨['=', '='], by simp [read.2.2], by rw [← read.2.1]; decide⟩
    · simp only [Except.ok.injEq, Prod.mk.injEq] at read
      exact ⟨[], by simp [read.2.2], by rw [← read.2.1]; decide⟩
  case h_11 =>
    split at read
    · rename_i literal
      simp only [Except.ok.injEq, Prod.mk.injEq] at read
      obtain ⟨spelling, split, count⟩ := Json.Quoted.read_split literal
      refine ⟨spelling, by simp [split, read.2.2], ?_⟩
      rw [Text.byteCount_cons, count, ← read.2.1, Nat.add_comm]
      rfl
    · simp at read
  case h_12 =>
    split at read
    · rename_i start
      simp only [Except.ok.injEq, Prod.mk.injEq] at read
      refine ⟨rest.takeWhile isWordPart, ?_, ?_⟩
      · rw [← read.2.2, List.takeWhile_append_dropWhile]
      · rw [← read.2.1, byteCount_eq_length, List.length_cons]
        intro character member
        rcases List.mem_cons.1 member with same | later
        · exact same ▸ isWordPart_of_isWordStart start
        · exact List.all_eq_true.1 List.all_takeWhile _ later
    · simp at read
  all_goals
    simp only [Except.ok.injEq, Prod.mk.injEq] at read
    exact ⟨[], by simp [read.2.2], by rw [← read.2.1]; decide⟩

theorem length_le_of_read {offset : Nat} {first : Char} {rest tail : List Char} {token : Token}
    {width : Nat} (found : read offset first rest = .ok (token, width, tail)) :
    tail.length ≤ rest.length := by
  obtain ⟨later, split, -⟩ := read_split found
  simp [split]

/-- The tokens of a source from a given offset on, behind those already found, latest first. -/
def scanFrom (found : List Located) (offset : Nat) : List Char → Except Error (List Located)
  | [] => .ok found.reverse
  | first :: rest =>
      if isBlank first then scanFrom found (offset + 1) rest
      else
        match _read : read offset first rest with
        | .error error => .error error
        | .ok (token, width, tail) => scanFrom (⟨offset, token⟩ :: found) (offset + width) tail
termination_by source => source.length
decreasing_by
  · simp
  · exact Nat.lt_succ_of_le (length_le_of_read _read)

def scan (source : List Char) : Except Error (List Located) :=
  scanFrom [] 0 source

end Token

end Check

end JsonShape
