import JsonShape.Json.Quoted

/-!
# Literals in a longer text

Reading a literal never looks behind its closing quote, so that text behind it changes nothing. What
stands in front of that quote is `Quoteless`: a quote in it is escaped, and so it is the first quote
that can close the literal (`exists_body_of_read`).
-/

namespace JsonShape

namespace Json.Quoted

/-- Every quote in the text is escaped, and so is every backslash. -/
inductive Quoteless : List Char → Prop
  | nil : Quoteless []
  | plain {character : Char} {rest : List Char} (notQuote : character ≠ '"')
      (notBackslash : character ≠ '\\') (later : Quoteless rest) : Quoteless (character :: rest)
  | escaped (character : Char) {rest : List Char} (later : Quoteless rest) :
      Quoteless ('\\' :: character :: rest)

theorem Quoteless.append {first second : List Char} (quoteless : Quoteless first)
    (later : Quoteless second) : Quoteless (first ++ second) := by
  induction quoteless with
  | nil => exact later
  | plain notQuote notBackslash _ ih => exact .plain notQuote notBackslash ih
  | escaped character _ ih => exact .escaped character ih

theorem Quoteless.of_hexValue? {digit : Char} {value : Nat} {rest : List Char}
    (isDigit : Text.hexValue? digit = some value) (later : Quoteless rest) :
    Quoteless (digit :: rest) := by
  refine .plain ?_ ?_ later
  · rintro rfl
    cases isDigit
  · rintro rfl
    cases isDigit

variable {text rest : List Char} {width : Nat}

theorem exists_codeUnit {unit : Nat} (read : codeUnit text = .ok (unit, rest)) :
    ∃ digits, text = digits ++ rest ∧ Quoteless digits ∧
      ∀ other, codeUnit (digits ++ other) = .ok (unit, other) := by
  simp only [codeUnit] at read
  split at read
  · rename_i first second third fourth tail
    split at read
    · rename_i firstValue secondValue thirdValue fourthValue
      simp only [Except.ok.injEq, Prod.mk.injEq] at read
      rcases read with ⟨rfl, rfl⟩
      refine ⟨[first, second, third, fourth], rfl, ?_, fun other => ?_⟩
      · exact .of_hexValue? firstValue (.of_hexValue? secondValue
          (.of_hexValue? thirdValue (.of_hexValue? fourthValue .nil)))
      · simp only [List.cons_append, List.nil_append, codeUnit, firstValue, secondValue,
          thirdValue, fourthValue]
    · simp at read
  · split at read <;> simp at read

theorem exists_lowSurrogate {unit : Nat} (read : lowSurrogate text = .ok (unit, rest)) :
    ∃ spelling, text = spelling ++ rest ∧ Quoteless spelling ∧
      ∀ other, lowSurrogate (spelling ++ other) = .ok (unit, other) := by
  simp only [lowSurrogate] at read
  split at read
  · simp at read
  · simp at read
  · split at read
    · simp at read
    · rename_i digitsRead
      split at read
      · rename_i low
        simp only [Except.ok.injEq, Prod.mk.injEq] at read
        rcases read with ⟨rfl, rfl⟩
        rcases exists_codeUnit digitsRead with ⟨digits, rfl, quoteless, again⟩
        refine ⟨'\\' :: 'u' :: digits, rfl, .escaped 'u' quoteless, fun other => ?_⟩
        simp only [List.cons_append, lowSurrogate, again other, if_pos low]
      · simp at read
  · simp at read

theorem exists_escape {character : Char} (read : escape text = .ok (character, width, rest)) :
    ∃ spelling, text = spelling ++ rest ∧ Quoteless ('\\' :: spelling) ∧
      ∀ other, escape (spelling ++ other) = .ok (character, width, other) := by
  simp only [escape] at read
  split at read
  · simp at read
  · split at read
    · simp at read
    · rename_i digitsRead
      rcases exists_codeUnit digitsRead with ⟨digits, rfl, quoteless, again⟩
      split at read
      · simp at read
      · rename_i notLow
        split at read
        · rename_i high
          split at read
          · simp at read
          · rename_i pairRead
            simp only [Except.ok.injEq, Prod.mk.injEq] at read
            rcases read with ⟨rfl, rfl, rfl⟩
            rcases exists_lowSurrogate pairRead with ⟨pair, rfl, pairQuoteless, pairAgain⟩
            refine ⟨'u' :: digits ++ pair, by simp, .escaped 'u' (quoteless.append pairQuoteless),
              fun other => ?_⟩
            rw [List.append_assoc, List.cons_append, escape, again]
            simp only [if_neg notLow, if_pos high, pairAgain]
        · rename_i notHigh
          simp only [Except.ok.injEq, Prod.mk.injEq] at read
          rcases read with ⟨rfl, rfl, rfl⟩
          refine ⟨'u' :: digits, rfl, .escaped 'u' quoteless, fun other => ?_⟩
          rw [List.cons_append, escape, again]
          simp only [if_neg notLow, if_neg notHigh]
  · rename_i letter tail other
    split at read
    · rename_i known
      simp only [Except.ok.injEq, Prod.mk.injEq] at read
      rcases read with ⟨rfl, rfl, rfl⟩
      refine ⟨[letter], rfl, .escaped letter .nil, fun more => ?_⟩
      rw [List.singleton_append, escape]
      · simp only [known]
      · exact other
    · simp at read

/-- A character of the string is read without its text. -/
theorem exists_character {character : Char}
    (read : element text = .ok (.character character, width, rest)) :
    ∃ spelling, text = spelling ++ rest ∧ Quoteless spelling ∧
      ∀ other, element (spelling ++ other) = .ok (.character character, width, other) := by
  simp only [element] at read
  split at read
  · simp at read
  · simp at read
  · split at read
    · simp at read
    · rename_i escapeRead
      simp only [Except.ok.injEq, Prod.mk.injEq, Element.character.injEq] at read
      rcases read with ⟨rfl, rfl, rfl⟩
      rcases exists_escape escapeRead with ⟨spelling, rfl, quoteless, again⟩
      refine ⟨'\\' :: spelling, rfl, quoteless, fun other => ?_⟩
      simp only [List.cons_append, element, again]
  · rename_i other tail notQuote notBackslash
    split at read
    · simp at read
    · rename_i visible
      simp only [Except.ok.injEq, Prod.mk.injEq, Element.character.injEq] at read
      rcases read with ⟨rfl, rfl, rfl⟩
      refine ⟨[other], rfl, .plain notQuote notBackslash .nil, fun more => ?_⟩
      rw [List.singleton_append, element, if_neg visible]
      · exact notQuote
      · exact notBackslash

theorem eq_quote_of_closing (read : element text = .ok (.closing, width, rest)) :
    text = '"' :: rest ∧ width = 1 := by
  simp only [element] at read
  split at read
  · simp at read
  · simp only [Except.ok.injEq, Prod.mk.injEq] at read
    rcases read with ⟨-, rfl, rfl⟩
    exact ⟨rfl, rfl⟩
  · split at read <;> simp at read
  · split at read <;> simp at read

theorem readFrom_closing (read : element text = .ok (.closing, width, rest))
    (reversed : List Char) (before : Nat) :
    readFrom reversed before text = .ok (reversed.reverse, before + width, rest) := by
  unfold readFrom
  split
  · rename_i failed
    rw [read] at failed
    cases failed
  · rename_i closed
    rw [read] at closed
    cases closed
    rfl
  · rename_i stepped
    rw [read] at stepped
    cases stepped

theorem readFrom_character {character : Char}
    (read : element text = .ok (.character character, width, rest)) (reversed : List Char)
    (before : Nat) :
    readFrom reversed before text = readFrom (character :: reversed) (before + width) rest := by
  rw [readFrom]
  split
  · rename_i failed
    rw [read] at failed
    cases failed
  · rename_i closed
    rw [read] at closed
    cases closed
  · rename_i stepped
    rw [read] at stepped
    cases stepped
    rfl

theorem exists_body_of_readFrom {reversed characters : List Char} {before : Nat}
    (literal : readFrom reversed before text = .ok (characters, width, rest)) :
    ∃ body, text = body ++ '"' :: rest ∧ Quoteless body ∧
      ∀ other, readFrom reversed before (body ++ '"' :: other) = .ok (characters, width, other) := by
  fun_induction readFrom reversed before text with
  | case1 => simp at literal
  | case2 reversed before text size tail read =>
      simp only [Except.ok.injEq, Prod.mk.injEq] at literal
      rcases literal with ⟨rfl, rfl, rfl⟩
      rcases eq_quote_of_closing read with ⟨rfl, rfl⟩
      exact ⟨[], rfl, .nil, fun other => readFrom_closing rfl reversed before⟩
  | case3 reversed before text character size tail read ih =>
      rcases exists_character read with ⟨first, rfl, quoteless, again⟩
      rcases ih literal with ⟨body, rfl, bodyQuoteless, bodyAgain⟩
      refine ⟨first ++ body, by simp, quoteless.append bodyQuoteless, fun other => ?_⟩
      rw [List.append_assoc, readFrom_character (again _)]
      exact bodyAgain other

/-- A literal ends at the first quote that can close it, and is read in the same way whatever follows
it. -/
theorem exists_body_of_read {characters : List Char}
    (literal : read text = .ok (characters, width, rest)) :
    ∃ body, text = body ++ '"' :: rest ∧ Quoteless body ∧
      ∀ other, read (body ++ '"' :: other) = .ok (characters, width, other) :=
  exists_body_of_readFrom literal

theorem read_append {characters : List Char}
    (literal : read text = .ok (characters, width, rest)) (more : List Char) :
    read (text ++ more) = .ok (characters, width, rest ++ more) := by
  rcases exists_body_of_read literal with ⟨body, rfl, -, again⟩
  rw [List.append_assoc]
  exact again (rest ++ more)

end Json.Quoted

end JsonShape
