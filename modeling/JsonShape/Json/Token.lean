import JsonShape.Json.Numeral

/-!
# Lexical elements of a JSON text

`Token.scan` splits a text at its blanks and marks. A place where no element can be read gives a
last token that carries the fault, and nothing behind it is looked at. Whether the fault began as
a string is kept with it, because a string that stands where none may stand is refused before it
is read.
-/

namespace JsonShape

namespace Json

inductive Token
  | null
  | bool (value : Bool)
  | number (value : Number)
  | string (value : String)
  | comma
  | colon
  | openArray
  | closeArray
  | openObject
  | closeObject
  /-- Nothing can be read here. -/
  | unreadable (asString : Bool) (fault : Fault)

namespace Token

/-- The characters that may stand between two elements. -/
def isBlank (character : Char) : Bool :=
  character = ' ' || character = '\t' || character = '\n' || character = '\r'

/-- What follows a word, if the text begins with that word. -/
def afterWord : List Char → List Char → Except Fault (List Char)
  | [], text => .ok text
  | _ :: _, [] => .error .truncated
  | expected :: word, character :: text =>
      if expected = character then afterWord word text else .error .malformed

def word (token : Token) (letters text : List Char) : Token × List Char :=
  match afterWord letters text with
  | .error fault => (.unreadable false fault, [])
  | .ok rest => (token, rest)

def numeral (text : List Char) : Token × List Char :=
  match Numeral.read text with
  | .error fault => (.unreadable false fault, [])
  | .ok (numeral, rest) =>
      match numeral.value? with
      | none => (.unreadable false .malformed, [])
      | some value => (.number value, rest)

def quoted (text : List Char) : Token × List Char :=
  match Quoted.read text with
  | .error fault => (.unreadable true fault, [])
  | .ok (characters, _, rest) => (.string (String.ofList characters), rest)

/-- Reads the element that begins with a given character, and gives the text behind it. -/
def read (first : Char) (rest : List Char) : Token × List Char :=
  match first with
  | ',' => (.comma, rest)
  | ':' => (.colon, rest)
  | '[' => (.openArray, rest)
  | ']' => (.closeArray, rest)
  | '\x7b' => (.openObject, rest)
  | '\x7d' => (.closeObject, rest)
  | '"' => quoted rest
  | 'n' => word .null ['u', 'l', 'l'] rest
  | 't' => word (.bool true) ['r', 'u', 'e'] rest
  | 'f' => word (.bool false) ['a', 'l', 's', 'e'] rest
  | _ =>
      if first = '-' || first.isDigit then numeral (first :: rest)
      else (.unreadable false .malformed, [])

theorem length_afterWord_le {letters text rest : List Char}
    (found : afterWord letters text = .ok rest) : rest.length ≤ text.length := by
  induction letters generalizing text with
  | nil => simp only [afterWord, Except.ok.injEq] at found; simp [found]
  | cons expected word ih =>
      cases text with
      | nil => simp [afterWord] at found
      | cons character text =>
          simp only [afterWord] at found
          split at found
          · exact Nat.le_succ_of_le (ih found)
          · simp at found

theorem length_word_le (token : Token) (letters text : List Char) :
    (word token letters text).2.length ≤ text.length := by
  unfold word
  split
  · simp
  · rename_i found
    exact length_afterWord_le found

theorem length_digits_lt {text run rest : List Char}
    (read : Numeral.digits text = .ok (run, rest)) : rest.length < text.length := by
  simp only [Numeral.digits] at read
  split at read
  · simp at read
  · rename_i first tail
    split at read
    · rename_i digit
      simp only [Except.ok.injEq, Prod.mk.injEq] at read
      rw [← read.2, List.dropWhile_cons_of_pos digit]
      exact Nat.lt_succ_of_le (List.dropWhile_suffix _).length_le
    · simp at read

theorem length_wholeDigits_lt {text run rest : List Char}
    (read : Numeral.wholeDigits text = .ok (run, rest)) : rest.length < text.length := by
  simp only [Numeral.wholeDigits] at read
  split at read
  · simp at read
  · rename_i digits
    split at read
    · simp at read
    · simp only [Except.ok.injEq, Prod.mk.injEq] at read
      exact read.2 ▸ length_digits_lt digits

theorem length_fractionDigits_le {text rest : List Char} {fraction : Option (List Char)}
    (read : Numeral.fractionDigits text = .ok (fraction, rest)) : rest.length ≤ text.length := by
  simp only [Numeral.fractionDigits] at read
  split at read
  · split at read
    · simp at read
    · rename_i digits
      simp only [Except.ok.injEq, Prod.mk.injEq] at read
      have shorter := length_digits_lt digits
      simp only [← read.2, List.length_cons]
      omega
  · simp only [Except.ok.injEq, Prod.mk.injEq] at read
    simp [read.2]

theorem length_exponentSign_le (text : List Char) :
    (Numeral.exponentSign text).2.length ≤ text.length := by
  unfold Numeral.exponentSign
  split <;> simp

theorem length_exponentDigits_le {text rest : List Char}
    {exponent : Option (Bool × List Char)}
    (read : Numeral.exponentDigits text = .ok (exponent, rest)) : rest.length ≤ text.length := by
  simp only [Numeral.exponentDigits] at read
  split at read
  · rename_i mark tail
    split at read
    · split at read
      · simp at read
      · rename_i digits
        simp only [Except.ok.injEq, Prod.mk.injEq] at read
        have shorter := length_digits_lt digits
        have signed := length_exponentSign_le tail
        simp only [← read.2, List.length_cons]
        omega
    · simp only [Except.ok.injEq, Prod.mk.injEq] at read
      simp [← read.2]
  · simp only [Except.ok.injEq, Prod.mk.injEq] at read
    simp [← read.2]

theorem length_readMagnitude_lt {negative : Bool} {text rest : List Char} {value : Numeral}
    (read : Numeral.readMagnitude negative text = .ok (value, rest)) :
    rest.length < text.length := by
  simp only [Numeral.readMagnitude] at read
  split at read
  · simp at read
  · rename_i whole
    split at read
    · simp at read
    · rename_i fraction
      split at read
      · simp at read
      · rename_i exponent
        simp only [Except.ok.injEq, Prod.mk.injEq] at read
        have first := length_wholeDigits_lt whole
        have second := length_fractionDigits_le fraction
        have third := length_exponentDigits_le exponent
        rw [← read.2]
        omega

theorem length_numeral_lt (first : Char) (rest : List Char) :
    (numeral (first :: rest)).2.length < (first :: rest).length := by
  unfold numeral
  split
  · simp
  · rename_i read
    split
    · simp
    · simp only [Numeral.read] at read
      split at read
      · rename_i same
        cases same
        exact Nat.lt_succ_of_lt (length_readMagnitude_lt read)
      · exact length_readMagnitude_lt read

theorem length_quoted_le (text : List Char) : (quoted text).2.length ≤ text.length := by
  unfold quoted
  split
  · simp
  · rename_i read
    obtain ⟨spelling, split, -⟩ := Quoted.read_split read
    simp [split]

/-- The element takes its first character at least. -/
theorem length_read_le (first : Char) (rest : List Char) :
    (read first rest).2.length ≤ rest.length := by
  unfold read
  split
  case h_7 => exact length_quoted_le rest
  case h_8 => exact length_word_le _ _ rest
  case h_9 => exact length_word_le _ _ rest
  case h_10 => exact length_word_le _ _ rest
  case h_11 =>
    split
    · exact Nat.le_of_lt_succ (length_numeral_lt first rest)
    · simp
  all_goals exact Nat.le_refl _

/-- The elements of a text behind those already found, which are given latest first. -/
def scanFrom (found : List Token) : List Char → List Token
  | [] => found.reverse
  | first :: rest =>
      if isBlank first then scanFrom found rest
      else scanFrom ((read first rest).1 :: found) (read first rest).2
termination_by text => text.length
decreasing_by
  · simp
  · exact Nat.lt_succ_of_le (length_read_le first rest)

def scan (text : List Char) : List Token :=
  scanFrom [] text

end Token

end Json

end JsonShape
