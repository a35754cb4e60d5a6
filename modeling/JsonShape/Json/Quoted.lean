import JsonShape.Text.Utf8

/-!
# JSON string literals

`Quoted.encode` writes a string as a literal: a quote, a backslash and the control characters
below U+0020 are escaped, in the short form where JSON has one and as `\u00xx` with lower-case
digits otherwise; all other characters stand for themselves.

`Quoted.read` reads the literal whose opening quote has just been passed. It accepts every
spelling that JSON allows: any of the short escapes, four hexadecimal digits in either case, and a
surrogate pair for a character above U+FFFF. What it cannot read it refuses with a `Fault`, and
the first fault in text order counts. The main statements are that reading splits the text
(`read_split`) and that it gives back what was written (`read_encodeBody`).
-/

namespace JsonShape

namespace Json

/-- Why a JSON text cannot be read any further. -/
inductive Fault
  /-- The text ends where more is needed. -/
  | truncated
  /-- The next characters cannot stand where they do. -/
  | malformed
  deriving Repr, DecidableEq

namespace Quoted

/-- The letter that stands after a backslash for a character that has a short escape. -/
def shortEscape? : Char → Option Char
  | '"' => some '"'
  | '\\' => some '\\'
  | '\x08' => some 'b'
  | '\t' => some 't'
  | '\n' => some 'n'
  | '\x0c' => some 'f'
  | '\r' => some 'r'
  | _ => none

/-- The character that a backslash and a letter stand for. A slash may be escaped, but need not
be. -/
def ofShortEscape? : Char → Option Char
  | '"' => some '"'
  | '\\' => some '\\'
  | '/' => some '/'
  | 'b' => some '\x08'
  | 't' => some '\t'
  | 'n' => some '\n'
  | 'f' => some '\x0c'
  | 'r' => some '\r'
  | _ => none

/-- How a character is written inside a literal. -/
def encodeChar (character : Char) : List Char :=
  match shortEscape? character with
  | some letter => ['\\', letter]
  | none =>
      if character.toNat < 0x20 then
        ['\\', 'u', '0', '0', (character.toNat / 16).digitChar, (character.toNat % 16).digitChar]
      else [character]

/-- The inside of the literal of some characters. -/
def encodeBody (characters : List Char) : List Char :=
  characters.flatMap encodeChar

/-- The literal of a string, with its quotes. -/
def encode (text : String) : String :=
  String.ofList ('"' :: encodeBody text.toList ++ ['"'])

/-- Four hexadecimal digits. Digits are missing if fewer than four bytes are left; otherwise any
character that is no digit is a fault of its own. -/
def codeUnit : List Char → Except Fault (Nat × List Char)
  | first :: second :: third :: fourth :: rest =>
      match Text.hexValue? first, Text.hexValue? second, Text.hexValue? third,
        Text.hexValue? fourth with
      | some first, some second, some third, some fourth =>
          .ok (((first * 16 + second) * 16 + third) * 16 + fourth, rest)
      | _, _, _, _ => .error .malformed
  | text => if Text.byteCount text < 4 then .error .truncated else .error .malformed

/-- The code units that open a surrogate pair. -/
def isHighSurrogate (unit : Nat) : Bool :=
  0xD800 ≤ unit && unit ≤ 0xDBFF

/-- The code units that close a surrogate pair. -/
def isLowSurrogate (unit : Nat) : Bool :=
  0xDC00 ≤ unit && unit ≤ 0xDFFF

/-- The character of a surrogate pair. -/
def ofSurrogates (high low : Nat) : Char :=
  Char.ofNat (0x10000 + (high - 0xD800) * 0x400 + (low - 0xDC00))

/-- The second half of a surrogate pair, which must follow the first half at once. -/
def lowSurrogate : List Char → Except Fault (Nat × List Char)
  | [] => .error .truncated
  | ['\\'] => .error .truncated
  | '\\' :: 'u' :: text =>
      match codeUnit text with
      | .error fault => .error fault
      | .ok (unit, rest) => if isLowSurrogate unit then .ok (unit, rest) else .error .malformed
  | _ => .error .malformed

/-- The character written by the escape whose backslash has just been passed, the number of bytes
that the escape takes after its backslash, and the text that follows. -/
def escape : List Char → Except Fault (Char × Nat × List Char)
  | [] => .error .truncated
  | 'u' :: text =>
      match codeUnit text with
      | .error fault => .error fault
      | .ok (unit, rest) =>
          if isLowSurrogate unit then .error .malformed
          else if isHighSurrogate unit then
            match lowSurrogate rest with
            | .error fault => .error fault
            | .ok (low, rest) => .ok (ofSurrogates unit low, 11, rest)
          else .ok (Char.ofNat unit, 5, rest)
  | letter :: rest =>
      match ofShortEscape? letter with
      | some character => .ok (character, 1, rest)
      | none => .error .malformed

/-- What the next characters inside a literal are. -/
inductive Element
  /-- One character of the string. -/
  | character (value : Char)
  /-- The closing quote. -/
  | closing

/-- Reads one element of a literal; gives also its length in bytes and the text that follows. -/
def element : List Char → Except Fault (Element × Nat × List Char)
  | [] => .error .truncated
  | '"' :: rest => .ok (.closing, 1, rest)
  | '\\' :: text =>
      match escape text with
      | .error fault => .error fault
      | .ok (character, width, rest) => .ok (.character character, width + 1, rest)
  | character :: rest =>
      if character.toNat < 0x20 then .error .malformed
      else .ok (.character character, character.utf8Size, rest)

theorem codeUnit_split {text rest : List Char} {unit : Nat}
    (read : codeUnit text = .ok (unit, rest)) :
    ∃ digits, text = digits ++ rest ∧ Text.byteCount digits = 4 := by
  simp only [codeUnit] at read
  split at read
  · rename_i first second third fourth tail
    split at read
    · rename_i firstValue secondValue thirdValue fourthValue
      simp only [Except.ok.injEq, Prod.mk.injEq] at read
      have size : ∀ {character : Char} {value : Nat},
          Text.hexValue? character = some value → character.utf8Size = 1 := by
        intro character value isDigit
        have below : character.toNat ≤ 127 := by
          unfold Text.hexValue? at isDigit
          split at isDigit
          · rename_i bounds
            exact Nat.le_trans (UInt32.le_iff_toNat_le.1 bounds.2) (by decide)
          · split at isDigit
            · rename_i bounds
              exact Nat.le_trans (UInt32.le_iff_toNat_le.1 bounds.2) (by decide)
            · split at isDigit
              · rename_i bounds
                exact Nat.le_trans (UInt32.le_iff_toNat_le.1 bounds.2) (by decide)
              · simp at isDigit
        exact Char.utf8Size_eq_one_iff.2 (UInt32.le_iff_toNat_le.2 below)
      refine ⟨[first, second, third, fourth], by simp [read.2], ?_⟩
      simp only [Text.byteCount_cons, Text.byteCount_nil]
      rw [size firstValue, size secondValue, size thirdValue, size fourthValue]
    · simp at read
  · split at read <;> simp at read

theorem lowSurrogate_split {text rest : List Char} {unit : Nat}
    (read : lowSurrogate text = .ok (unit, rest)) :
    ∃ spelling, text = spelling ++ rest ∧ Text.byteCount spelling = 6 := by
  simp only [lowSurrogate] at read
  split at read
  · simp at read
  · simp at read
  · split at read
    · simp at read
    · rename_i digits
      split at read
      · simp only [Except.ok.injEq, Prod.mk.injEq] at read
        obtain ⟨spelling, split, width⟩ := codeUnit_split digits
        refine ⟨'\\' :: 'u' :: spelling, by simp [split, read.2], ?_⟩
        simp only [Text.byteCount_cons, width]
        decide
      · simp at read
  · simp at read

theorem escape_split {text rest : List Char} {character : Char} {width : Nat}
    (read : escape text = .ok (character, width, rest)) :
    ∃ spelling, text = spelling ++ rest ∧ Text.byteCount spelling = width := by
  simp only [escape] at read
  split at read
  · simp at read
  · split at read
    · simp at read
    · rename_i digits
      obtain ⟨first, split, size⟩ := codeUnit_split digits
      split at read
      · simp at read
      · split at read
        · split at read
          · simp at read
          · rename_i pair
            simp only [Except.ok.injEq, Prod.mk.injEq] at read
            obtain ⟨second, splitSecond, sizeSecond⟩ := lowSurrogate_split pair
            refine ⟨'u' :: (first ++ second), by simp [split, splitSecond, read.2.2], ?_⟩
            simp only [Text.byteCount_cons, Text.byteCount_append, size, sizeSecond, ← read.2.1]
            decide
        · simp only [Except.ok.injEq, Prod.mk.injEq] at read
          refine ⟨'u' :: first, by simp [split, read.2.2], ?_⟩
          simp only [Text.byteCount_cons, size, ← read.2.1]
          decide
  · rename_i letter tail _
    split at read
    · rename_i known
      simp only [Except.ok.injEq, Prod.mk.injEq] at read
      refine ⟨[letter], by simp [read.2.2], ?_⟩
      have short : letter.utf8Size = 1 := by
        simp only [ofShortEscape?] at known
        split at known <;> cases known <;> rfl
      simp [short, ← read.2.1]
    · simp at read

/-- An element takes at least one character, and its width is the length of its spelling. -/
theorem element_split {text rest : List Char} {piece : Element} {width : Nat}
    (read : element text = .ok (piece, width, rest)) :
    ∃ spelling, spelling ≠ [] ∧ text = spelling ++ rest ∧ Text.byteCount spelling = width := by
  simp only [element] at read
  split at read
  · simp at read
  · simp only [Except.ok.injEq, Prod.mk.injEq] at read
    refine ⟨['"'], by simp, by simp [read.2.2], ?_⟩
    rw [← read.2.1]
    decide
  · split at read
    · simp at read
    · rename_i escaped
      simp only [Except.ok.injEq, Prod.mk.injEq] at read
      obtain ⟨spelling, split, size⟩ := escape_split escaped
      refine ⟨'\\' :: spelling, by simp, by simp [split, read.2.2], ?_⟩
      rw [Text.byteCount_cons, size, ← read.2.1, Nat.add_comm]
      rfl
  · rename_i character tail _ _
    split at read
    · simp at read
    · simp only [Except.ok.injEq, Prod.mk.injEq] at read
      exact ⟨[character], by simp, by simp [read.2.2], by simp [read.2.1]⟩

theorem length_lt_of_element {text rest : List Char} {piece : Element} {width : Nat}
    (read : element text = .ok (piece, width, rest)) : rest.length < text.length := by
  obtain ⟨spelling, nonempty, split, -⟩ := element_split read
  have positive := List.length_pos_iff.2 nonempty
  simp only [split, List.length_append]
  omega

/-- Reads the rest of a literal, after `reversed` has been read from its first `width` bytes. -/
def readFrom (reversed : List Char) (width : Nat) (text : List Char) :
    Except Fault (List Char × Nat × List Char) :=
  match _read : element text with
  | .error fault => .error fault
  | .ok (.closing, size, rest) => .ok (reversed.reverse, width + size, rest)
  | .ok (.character character, size, rest) =>
      readFrom (character :: reversed) (width + size) rest
termination_by text.length
decreasing_by exact length_lt_of_element _read

/-- Reads a literal whose opening quote has just been passed: its characters, its length in bytes
after that quote, and the text behind its closing quote. -/
def read (text : List Char) : Except Fault (List Char × Nat × List Char) :=
  readFrom [] 0 text

theorem readFrom_split {text rest reversed characters : List Char} {before width : Nat}
    (literal : readFrom reversed before text = .ok (characters, width, rest)) :
    ∃ spelling, text = spelling ++ rest ∧ before + Text.byteCount spelling = width := by
  fun_induction readFrom reversed before text with
  | case1 => simp at literal
  | case2 reversed before text size tail read =>
      simp only [Except.ok.injEq, Prod.mk.injEq] at literal
      obtain ⟨spelling, -, split, count⟩ := element_split read
      exact ⟨spelling, by simp [split, literal.2.2], by rw [count]; exact literal.2.1⟩
  | case3 reversed before text character size tail read ih =>
      obtain ⟨first, -, split, count⟩ := element_split read
      obtain ⟨later, splitLater, countLater⟩ := ih literal
      refine ⟨first ++ later, by simp [split, splitLater], ?_⟩
      rw [Text.byteCount_append, count, ← Nat.add_assoc]
      exact countLater

/-- Reading a literal splits the text, and its width is the length of the part that was read. -/
theorem read_split {text rest characters : List Char} {width : Nat}
    (literal : read text = .ok (characters, width, rest)) :
    ∃ spelling, text = spelling ++ rest ∧ Text.byteCount spelling = width := by
  obtain ⟨spelling, split, count⟩ := readFrom_split literal
  exact ⟨spelling, split, by omega⟩

theorem ofShortEscape?_of_shortEscape? {character letter : Char}
    (escaped : shortEscape? character = some letter) :
    ofShortEscape? letter = some character ∧ letter ≠ 'u' := by
  simp only [shortEscape?] at escaped
  split at escaped <;> cases escaped <;> exact ⟨rfl, by decide⟩

/-- The escapes with four digits that `encodeChar` writes are read as the character they stand
for. -/
theorem escape_control (value : Fin 32) (rest : List Char) :
    escape ('u' :: '0' :: '0' :: (value.val / 16).digitChar :: (value.val % 16).digitChar :: rest) =
      .ok (Char.ofNat value.val, 5, rest) := by
  have high := Text.hexValue?_digitChar (show value.val / 16 < 16 by omega)
  have low := Text.hexValue?_digitChar (show value.val % 16 < 16 by omega)
  have zero : Text.hexValue? '0' = some 0 := by decide
  have whole : ((0 * 16 + 0) * 16 + value.val / 16) * 16 + value.val % 16 = value.val := by omega
  have notLow : isLowSurrogate value.val = false := by
    simp [isLowSurrogate]; omega
  have notHigh : isHighSurrogate value.val = false := by
    simp [isHighSurrogate]; omega
  simp only [escape, codeUnit, zero, high, low, whole, notLow, notHigh]
  rfl

theorem element_encodeChar (character : Char) (rest : List Char) :
    element (encodeChar character ++ rest) =
      .ok (.character character, Text.byteCount (encodeChar character), rest) := by
  unfold encodeChar
  split
  · rename_i letter escaped
    obtain ⟨meaning, notUnicode⟩ := ofShortEscape?_of_shortEscape? escaped
    have size : letter.utf8Size = 1 := by
      simp only [shortEscape?] at escaped
      split at escaped <;> cases escaped <;> rfl
    have read : escape (letter :: rest) = .ok (character, 1, rest) := by
      unfold escape
      split
      · simp_all
      · simp_all
      · rename_i same
        cases same
        simp [meaning]
    simp only [List.cons_append, List.nil_append, element, read, Text.byteCount_cons,
      Text.byteCount_nil, size]
    rfl
  · rename_i plain
    split
    · rename_i control
      have read := escape_control ⟨character.toNat, control⟩ rest
      simp only [Char.ofNat_toNat] at read
      have digitSize : ∀ digit < 16, (Nat.digitChar digit).utf8Size = 1 := by decide
      simp only [List.cons_append, List.nil_append, element, read, Text.byteCount_cons,
        Text.byteCount_nil, digitSize _ (show character.toNat / 16 < 16 by omega),
        digitSize _ (show character.toNat % 16 < 16 by omega)]
      rfl
    · rename_i visible
      have notQuote : character ≠ '"' := by
        rintro rfl
        simp [shortEscape?] at plain
      have notBackslash : character ≠ '\\' := by
        rintro rfl
        simp [shortEscape?] at plain
      rw [List.singleton_append, element, if_neg visible]
      · simp
      · exact notQuote
      · exact notBackslash

theorem readFrom_encodeBody (characters reversed rest : List Char) (width : Nat) :
    readFrom reversed width (encodeBody characters ++ '"' :: rest) =
      .ok (reversed.reverse ++ characters, width + Text.byteCount (encodeBody characters) + 1,
        rest) := by
  induction characters generalizing reversed width with
  | nil =>
      unfold readFrom
      split
      · rename_i read
        simp [encodeBody, element] at read
      · rename_i read
        simp only [encodeBody, List.flatMap_nil, List.nil_append, element, Except.ok.injEq,
          Prod.mk.injEq] at read
        simp [encodeBody, ← read.2.1, read.2.2]
      · rename_i read
        simp [encodeBody, element] at read
  | cons character later ih =>
      have read := element_encodeChar character (encodeBody later ++ '"' :: rest)
      have text : encodeBody (character :: later) ++ '"' :: rest =
          encodeChar character ++ (encodeBody later ++ '"' :: rest) := by
        simp [encodeBody]
      rw [text]
      unfold readFrom
      split
      · rename_i failed
        simp [read] at failed
      · rename_i closed
        simp [read] at closed
      · rename_i stepped
        rw [read] at stepped
        simp only [Except.ok.injEq, Prod.mk.injEq, Element.character.injEq] at stepped
        obtain ⟨sameCharacter, sameSize, sameRest⟩ := stepped
        rw [← sameCharacter, ← sameSize, ← sameRest, ih]
        simp [encodeBody, Nat.add_assoc]

/-- Reading a written literal gives the characters that were written. -/
theorem read_encodeBody (characters rest : List Char) :
    read (encodeBody characters ++ '"' :: rest) =
      .ok (characters, Text.byteCount (encodeBody characters) + 1, rest) := by
  simp [read, readFrom_encodeBody]

end Quoted

end Json

end JsonShape
