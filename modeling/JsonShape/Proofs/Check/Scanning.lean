import JsonShape.Proofs.Check.Lexing

/-!
# What is split into tokens spells them

`Token.scan` finds tokens only where they are written (`written_of_scan`). A text can therefore be
cut in front of any of its tokens (`Written.exists_cut`), and it can be continued behind a blank
without a change to the tokens found so far (`scanFrom_append_blank`).
-/

namespace JsonShape

namespace Check

namespace Token

section Read

variable {offset width : Nat} {first : Char} {rest tail : List Char} {token : Token}

theorem ends_ofWord_of_not_part (word : String)
    (stops : ∀ next ∈ tail.head?, isWordPart next = false) : Ends (ofWord word) tail := by
  unfold ofWord
  split
  · exact stops
  · exact stops

/-- A token is read where one of its spellings stands, and up to where it ends. -/
theorem exists_spells_of_read (found : read offset first rest = .ok (token, width, tail)) :
    ∃ later, rest = later ++ tail ∧ Spells (first :: later) token ∧ Ends token tail := by
  simp only [read] at found
  split at found
  case h_9 => -- a pair of ampersands
    split at found
    · cases found
      exact ⟨['&'], rfl, .symbol rfl, trivial⟩
    · cases found
  case h_10 => -- three signs of equality, or a single one
    split at found
    · cases found
      exact ⟨['=', '='], rfl, .symbol rfl, trivial⟩
    · rename_i single
      cases found
      exact ⟨[], rfl, .symbol rfl, single⟩
  case h_11 => -- a string
    split at found
    · rename_i characters size after literal
      cases found
      rcases Json.Quoted.exists_body_of_read literal with ⟨body, rfl, -, again⟩
      have alone := again []
      rw [← String.toList_ofList (l := characters)] at alone
      exact ⟨body ++ ['"'], by simp, .literal ⟨_, _, rfl, alone⟩, trivial⟩
    · cases found
  case h_12 => -- a word
    split at found
    · rename_i start
      cases found
      refine ⟨rest.takeWhile isWordPart, List.takeWhile_append_dropWhile.symm, ?_, ?_⟩
      · exact .word start (List.all_eq_true.mp List.all_takeWhile)
      · apply ends_ofWord_of_not_part
        intro next isNext
        have stops := List.head?_dropWhile_not isWordPart rest
        rw [isNext] at stops
        exact stops
    · cases found
  all_goals
    cases found
    exact ⟨[], rfl, .symbol rfl, trivial⟩

end Read

/-- What is found behind other tokens is written from the given offset on. -/
theorem written_of_scanFrom {found tokens : List Located} {offset : Nat} {source : List Char}
    (scanned : scanFrom found offset source = .ok tokens) :
    ∃ later, tokens = found.reverse ++ later ∧ Written offset later source := by
  fun_induction scanFrom found offset source with
  | case1 found offset =>
      cases scanned
      exact ⟨[], by simp, .nil⟩
  | case2 found offset first rest blank ih =>
      rcases ih scanned with ⟨later, same, written⟩
      exact ⟨later, same, .blank blank written⟩
  | case3 => cases scanned
  | case4 found offset first rest visible token width tail tokenRead ih =>
      rcases exists_spells_of_read tokenRead with ⟨spelling, rfl, spelled, ends⟩
      rcases read_split tokenRead with ⟨other, same, count⟩
      rw [← List.append_cancel_right same] at count
      rcases ih scanned with ⟨later, rfl, written⟩
      rw [← count] at written
      exact ⟨⟨offset, token⟩ :: later, by simp, .token spelled ends written⟩

theorem written_of_scan {tokens : List Located} {source : List Char}
    (scanned : scan source = .ok tokens) : Written 0 tokens source := by
  rcases written_of_scanFrom scanned with ⟨later, rfl, written⟩
  exact written

section Written

variable {offset : Nat} {tokens : List Located} {source rest : List Char}

theorem Spells.ne_nil {spelling : List Char} {token : Token} (spelled : Spells spelling token) :
    spelling ≠ [] := by
  cases spelled with
  | word => exact List.cons_ne_nil _ _
  | literal isLiteral =>
      rcases isLiteral with ⟨body, width, rfl, -⟩
      exact List.cons_ne_nil _ _
  | symbol found =>
      rintro rfl
      cases token <;> cases found

/-- A token that ends where a text goes on ends where a part of the text does. -/
theorem Ends.of_append {token : Token} {first second : List Char}
    (ends : Ends token (first ++ second)) : Ends token first := by
  cases token with
  | reserved | name =>
      intro next isNext
      apply ends next
      cases first with
      | nil => cases isNext
      | cons character later => exact isNext
  | assign =>
      rintro more rfl
      exact ends (more ++ second) rfl
  | _ => trivial

theorem Ends.append_blank {token : Token} (ends : Ends token rest) (more : List Char) :
    Ends token (rest ++ ' ' :: more) := by
  cases token with
  | reserved | name =>
      intro next isNext
      cases rest with
      | nil =>
          cases isNext
          decide
      | cons character later => exact ends next isNext
  | assign =>
      intro tail same
      rcases rest with _ | ⟨first, _ | ⟨second, later⟩⟩
      · simp at same
      · simp at same
      · simp only [List.cons_append, List.cons.injEq] at same
        exact ends later (by rw [same.1, same.2.1])
  | _ => trivial

theorem utf8Size_of_isBlank {character : Char} (blank : isBlank character = true) :
    character.utf8Size = 1 := by
  simp only [isBlank, Bool.or_eq_true, decide_eq_true_eq] at blank
  rcases blank with ((rfl | rfl) | rfl) | rfl <;> rfl

/-- The tokens of a text begin inside it. -/
theorem Written.offset_lt (written : Written offset tokens source) :
    ∀ located ∈ tokens, located.offset < offset + Text.byteCount source := by
  induction written with
  | nil => nofun
  | @blank offset tokens rest character blank written ih =>
      intro located member
      have inside := ih located member
      rw [Text.byteCount_cons, utf8Size_of_isBlank blank]
      omega
  | @token offset token spelling tokens rest spelled ends written ih =>
      intro located member
      have positive := List.length_pos_iff.mpr spelled.ne_nil
      have longer := Text.length_le_byteCount spelling
      rw [Text.byteCount_append]
      rcases List.mem_cons.mp member with rfl | later
      · dsimp only
        omega
      · have inside := ih located later
        omega

/-- A text can be cut in front of any of its tokens. -/
theorem Written.exists_cut {before after : List Located} {located : Located}
    (written : Written offset (before ++ located :: after) source) :
    ∃ head tail, source = head ++ tail ∧ Written offset before head ∧
      offset + Text.byteCount head = located.offset := by
  generalize whole : before ++ located :: after = tokens at written
  induction written generalizing before with
  | nil => simp at whole
  | @blank offset tokens rest character blank written ih =>
      rcases ih whole with ⟨head, tail, rfl, cut, position⟩
      refine ⟨character :: head, tail, rfl, .blank blank cut, ?_⟩
      rw [Text.byteCount_cons, utf8Size_of_isBlank blank, ← position, Nat.add_assoc]
  | @token offset token spelling tokens rest spelled ends written ih =>
      cases before with
      | nil =>
          cases whole
          exact ⟨[], spelling ++ rest, rfl, .nil, rfl⟩
      | cons first before =>
          simp only [List.cons_append, List.cons.injEq] at whole
          rcases ih whole.2 with ⟨head, tail, rfl, cut, position⟩
          refine ⟨spelling ++ head, tail, by simp, ?_, ?_⟩
          · rw [whole.1]
            exact .token spelled ends.of_append cut
          · rw [Text.byteCount_append, ← position, Nat.add_assoc]

/-- Behind a blank, the tokens of a text are found behind those in front of it. -/
theorem scanFrom_append_blank (written : Written offset tokens source) (found : List Located)
    (more : List Char) :
    scanFrom found offset (source ++ ' ' :: more) =
      scanFrom (tokens.reverse ++ found) (offset + Text.byteCount source + 1) more := by
  induction written generalizing found with
  | nil =>
      rw [List.nil_append, scanFrom, if_pos (by decide)]
      rfl
  | @blank offset tokens rest character blank written ih =>
      rw [List.cons_append, scanFrom, if_pos blank, ih, Text.byteCount_cons,
        utf8Size_of_isBlank blank, ← Nat.add_assoc offset]
  | @token offset token spelling tokens rest spelled ends written ih =>
      rw [List.append_assoc, scanFrom_of_spells spelled (ends.append_blank more), ih,
        Text.byteCount_append, List.reverse_cons, List.append_assoc, List.singleton_append,
        ← Nat.add_assoc offset]

/-- What a text spells does not depend on where it begins. -/
theorem Written.writes (written : Written offset tokens source) :
    Writes (tokens.map Located.token) source := by
  induction written with
  | nil => exact .nil
  | blank blank written ih =>
      intro other
      rcases ih (other + 1) with ⟨located, same, moved⟩
      exact ⟨located, same, .blank blank moved⟩
  | token spelled ends written ih => exact ih.cons spelled ends

end Written

end Token

end Check

end JsonShape
