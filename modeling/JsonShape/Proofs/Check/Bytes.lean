import JsonShape.Check.Bytes
import JsonShape.Proofs.Check.Scanning

/-!
# A source as bytes and as characters

Splitting a source by its bytes and by its characters is the same (`scanBytes_eq`). What makes it so
is that the bytes of a character that is not ASCII are no ASCII characters themselves: a byte that
looks like a quote, a blank or a letter is one.

The quote that closes a literal is looked for among the bytes. It is found behind text in which
every quote is escaped (`closingQuote?_of_quoteless`) and nowhere else
(`exists_quoteless_of_closingQuote?`), although the byte behind a backslash may be one of several
that make up a character. JSON ends the literal there, too.
-/

namespace JsonShape

namespace Check

namespace Token

open Json.Quoted (Quoteless)
open Text (IsWide bytes byteCount)

/-! ### The closing quote -/

/-- The quote that closes a literal is looked for behind the text, and not inside it. -/
def Skips (text : List Char) : Prop :=
  ∀ rest : List UInt8,
    closingQuote? (bytes text ++ rest) = (closingQuote? rest).map (· + byteCount text)

theorem closingQuote?_of_plain {byte : UInt8} (notQuote : Char.ofUInt8 byte ≠ '"')
    (notBackslash : Char.ofUInt8 byte ≠ '\\') (rest : List UInt8) :
    closingQuote? (byte :: rest) = (closingQuote? rest).map (· + 1) := by
  rw [closingQuote?.eq_def]
  exact (if_neg notQuote).trans (if_neg notBackslash)

theorem ofUInt8_ne_of_isWide {byte : UInt8} (wide : IsWide byte) {character : Char}
    (ascii : character.utf8Size = 1) : Char.ofUInt8 byte ≠ character := by
  rintro rfl
  exact wide ascii

theorem closingQuote?_wide_append {later : List UInt8} (wide : ∀ byte ∈ later, IsWide byte)
    (rest : List UInt8) :
    closingQuote? (later ++ rest) = (closingQuote? rest).map (· + later.length) := by
  induction later with
  | nil => simp
  | cons byte later ih =>
      have isWide := wide byte List.mem_cons_self
      rw [List.cons_append, closingQuote?_of_plain (ofUInt8_ne_of_isWide isWide (by decide))
        (ofUInt8_ne_of_isWide isWide (by decide)),
        ih fun other member => wide other (List.mem_cons_of_mem _ member), Option.map_map,
        List.length_cons]
      rfl

namespace Skips

variable {first second : List Char}

theorem nil : Skips [] := by
  intro rest
  simp

theorem append (skipsFirst : Skips first) (skipsSecond : Skips second) :
    Skips (first ++ second) := by
  intro rest
  rw [Text.bytes_append, List.append_assoc, skipsFirst, skipsSecond, Option.map_map,
    Text.byteCount_append]
  congr 1
  funext count
  simp only [Function.comp_apply]
  omega

theorem plain {character : Char} (notQuote : character ≠ '"') (notBackslash : character ≠ '\\') :
    Skips [character] := by
  intro rest
  rcases Text.exists_utf8EncodeChar character with ⟨byte, later, encoded, wide, same | other⟩
  all_goals
    have width := String.length_utf8EncodeChar character
    rw [encoded, List.length_cons] at width
    rw [Text.bytes_cons, Text.bytes_nil, List.append_nil, encoded, List.cons_append,
      closingQuote?_of_plain, closingQuote?_wide_append wide, Option.map_map, Text.byteCount_cons,
      ← width]
  · rfl
  · exact same.1 ▸ notQuote
  · exact same.1 ▸ notBackslash
  · rfl
  · exact ofUInt8_ne_of_isWide other.1 (by decide)
  · exact ofUInt8_ne_of_isWide other.1 (by decide)

/-- Behind a backslash, one byte is skipped unseen, and no other byte of its character can be taken
for a quote or a backslash. -/
theorem escaped (character : Char) : Skips ['\\', character] := by
  intro rest
  rcases Text.exists_utf8EncodeChar character with ⟨byte, later, encoded, wide, -⟩
  have width := String.length_utf8EncodeChar character
  rw [encoded, List.length_cons] at width
  have skipped : closingQuote? (92 :: byte :: (later ++ rest)) =
      (closingQuote? (later ++ rest)).map (· + 2) := by
    rw [closingQuote?.eq_def]
    rfl
  have backslash : bytes ['\\', character] ++ rest = 92 :: byte :: (later ++ rest) := by
    rw [Text.bytes_cons, Text.bytes_cons, encoded, Text.bytes_nil, List.append_nil]
    rfl
  have size : byteCount ['\\', character] = 1 + (later.length + 1) := by
    rw [width]
    rfl
  rw [backslash, skipped, closingQuote?_wide_append wide, Option.map_map, size]
  congr 1
  funext count
  simp only [Function.comp_apply]
  omega

theorem of_quoteless {text : List Char} (quoteless : Quoteless text) : Skips text := by
  induction quoteless with
  | nil => exact .nil
  | plain notQuote notBackslash _ ih => exact (Skips.plain notQuote notBackslash).append ih
  | escaped character _ ih => exact (Skips.escaped character).append ih

end Skips

/-- The first quote that is not escaped closes the literal. -/
theorem closingQuote?_of_quoteless {body : List Char} (quoteless : Quoteless body)
    (rest : List Char) : closingQuote? (bytes (body ++ '"' :: rest)) = some (byteCount body) := by
  have closes : closingQuote? (bytes ('"' :: rest)) = some 0 := by
    change closingQuote? (34 :: bytes rest) = some 0
    rw [closingQuote?.eq_def]
    rfl
  rw [Text.bytes_append, Skips.of_quoteless quoteless, closes, Option.map_some, Nat.zero_add]

/-- A quote is found where a character is, and never inside of one. -/
theorem exists_quoteless_of_closingQuote? {text : List Char} {length : Nat}
    (found : closingQuote? (bytes text) = some length) :
    ∃ body tail, text = body ++ '"' :: tail ∧ Quoteless body := by
  induction size : text.length using Nat.strongRecOn generalizing text length with
  | ind size ih =>
      cases text with
      | nil => cases found
      | cons character rest =>
          rw [List.length_cons] at size
          by_cases isQuote : character = '"'
          · exact ⟨[], rest, by rw [isQuote, List.nil_append], .nil⟩
          by_cases isBackslash : character = '\\'
          · subst isBackslash
            cases rest with
            | nil => cases found
            | cons other rest =>
                rw [List.length_cons] at size
                change closingQuote? (bytes (['\\', other] ++ rest)) = some length at found
                rw [Text.bytes_append, Skips.escaped other] at found
                rcases Option.map_eq_some_iff.mp found with ⟨more, foundLater, -⟩
                rcases ih rest.length (by omega) foundLater rfl with ⟨body, tail, rfl, quoteless⟩
                exact ⟨'\\' :: other :: body, tail, rfl, .escaped other quoteless⟩
          · change closingQuote? (bytes ([character] ++ rest)) = some length at found
            rw [Text.bytes_append, Skips.plain isQuote isBackslash] at found
            rcases Option.map_eq_some_iff.mp found with ⟨more, foundLater, -⟩
            rcases ih rest.length (by omega) foundLater rfl with ⟨body, tail, rfl, quoteless⟩
            exact ⟨character :: body, tail, rfl, .plain isQuote isBackslash quoteless⟩

/-! ### Literals -/

theorem ofLiteral?_eq_some_iff {spelling : List Char} {value : String} :
    ofLiteral? spelling = some value ↔ IsLiteral spelling value := by
  constructor
  · intro found
    simp only [ofLiteral?] at found
    split at found
    · rename_i body
      split at found
      · rename_i characters size literal
        cases found
        exact ⟨body, size, rfl, by rw [literal, String.toList_ofList]⟩
      · cases found
    · cases found
  · rintro ⟨body, size, rfl, literal⟩
    simp only [ofLiteral?, literal, String.ofList_toList]

theorem literalBytes_eq (before rest : List Char) :
    literalBytes (before ++ '"' :: rest) (byteCount before) (bytes rest) =
      match Json.Quoted.read rest with
      | .error _ => .error (.error (.invalidString (byteCount before)))
      | .ok (characters, width, _) => .ok (.text (String.ofList characters), width) := by
  have sliced (body tail : List Char) :
      Text.slice? (before ++ '"' :: (body ++ '"' :: tail)) (byteCount before) (byteCount body + 2) =
        some ('"' :: (body ++ ['"'])) := by
    have slice := Text.slice?_append before ('"' :: (body ++ ['"'])) tail
    have size : byteCount ('"' :: (body ++ ['"'])) = byteCount body + 2 := by
      rw [Text.byteCount_cons, Text.byteCount_append, Nat.add_comm]
      rfl
    rwa [size, List.cons_append, List.append_assoc, List.singleton_append] at slice
  cases literal : Json.Quoted.read rest with
  | ok result =>
      rcases result with ⟨characters, width, tail⟩
      rcases Json.Quoted.exists_body_of_read literal with ⟨body, rfl, quoteless, again⟩
      have alone := again []
      have size : width = byteCount body + 1 := by
        rcases Json.Quoted.read_split alone with ⟨spelling, split, count⟩
        rw [List.append_nil] at split
        rw [← count, ← split, Text.byteCount_append]
        rfl
      rw [← String.toList_ofList (l := characters)] at alone
      have decoded := ofLiteral?_eq_some_iff.mpr ⟨_, _, rfl, alone⟩
      simp only [literalBytes, closingQuote?_of_quoteless quoteless, sliced, decoded, size]
  | error fault =>
      cases found : closingQuote? (bytes rest) with
      | none => simp only [literalBytes, found]
      | some length =>
          rcases exists_quoteless_of_closingQuote? found with ⟨body, tail, rfl, quoteless⟩
          have malformed : ofLiteral? ('"' :: (body ++ ['"'])) = none := by
            apply Option.eq_none_iff_forall_ne_some.mpr
            intro value decoded
            rcases ofLiteral?_eq_some_iff.mp decoded with ⟨whole, width, same, alone⟩
            cases same
            have longer := Json.Quoted.read_append alone tail
            rw [List.append_assoc, List.singleton_append, literal] at longer
            cases longer
          simp only [literalBytes, closingQuote?_of_quoteless quoteless, sliced, malformed]

/-! ### Words -/

theorem isWordPart_eq_false_of_long {character : Char} (long : character.utf8Size ≠ 1) :
    isWordPart character = false :=
  Bool.eq_false_iff.mpr fun part => long (utf8Size_of_isWordPart part)

theorem isWordStart_eq_false_of_long {character : Char} (long : character.utf8Size ≠ 1) :
    isWordStart character = false :=
  Bool.eq_false_iff.mpr fun start =>
    long (utf8Size_of_isWordPart (isWordPart_of_isWordStart start))

theorem takeWhile_bytes (text : List Char) :
    (bytes text).takeWhile (fun byte => isWordPart (Char.ofUInt8 byte)) =
      bytes (text.takeWhile isWordPart) := by
  induction text with
  | nil => rfl
  | cons character rest ih =>
      rcases Text.exists_utf8EncodeChar character with ⟨byte, later, encoded, -, same | other⟩
      · rw [Text.bytes_cons, encoded, same.2, List.singleton_append]
        by_cases part : isWordPart character = true
        · rw [List.takeWhile_cons_of_pos (by rw [same.1, part]), ih,
            List.takeWhile_cons_of_pos part, Text.bytes_cons, encoded, same.2,
            List.singleton_append]
        · rw [List.takeWhile_cons_of_neg (by rw [same.1]; exact part),
            List.takeWhile_cons_of_neg part]
          rfl
      · rw [Text.bytes_cons, encoded, List.cons_append,
          List.takeWhile_cons_of_neg (by simp [isWordPart_eq_false_of_long other.1]),
          List.takeWhile_cons_of_neg (by simp [isWordPart_eq_false_of_long other.2])]
        rfl

theorem byteCount_takeWhile (text : List Char) :
    byteCount (text.takeWhile isWordPart) = (text.takeWhile isWordPart).length :=
  byteCount_eq_length (List.all_eq_true.mp List.all_takeWhile)

theorem wordBytes_eq {first : Char} (start : isWordStart first = true) (before rest : List Char) :
    wordBytes (before ++ first :: rest) (byteCount before) (bytes rest) =
      .ok (ofWord (String.ofList (first :: rest.takeWhile isWordPart)),
        (rest.takeWhile isWordPart).length) := by
  have slice := Text.slice?_append before (first :: rest.takeWhile isWordPart)
    (rest.dropWhile isWordPart)
  have width := utf8Size_of_isWordPart (isWordPart_of_isWordStart start)
  rw [List.cons_append, List.takeWhile_append_dropWhile, Text.byteCount_cons, byteCount_takeWhile,
    width, Nat.add_comm] at slice
  simp only [wordBytes, takeWhile_bytes, Text.length_bytes, byteCount_takeWhile, slice]

theorem unexpected_eq (before : List Char) (first : Char) (rest : List Char) :
    unexpected (before ++ first :: rest) (byteCount before) =
      .error (.unexpectedChar (byteCount before) first) := by
  rw [unexpected, Text.cut?_append]

/-! ### Tokens -/

/-- Looking for ASCII characters among the bytes finds them where the text has them. -/
theorem take_bytes_iff (word : List Char) (ascii : ∀ character ∈ word, character.utf8Size = 1)
    (text : List Char) :
    ((bytes text).take word.length).map Char.ofUInt8 = word ↔ ∃ tail, text = word ++ tail := by
  induction word generalizing text with
  | nil => simp
  | cons character word ih =>
      have ascii' := ascii character List.mem_cons_self
      cases text with
      | nil => simp
      | cons first rest =>
          rcases Text.exists_utf8EncodeChar first with ⟨byte, later, encoded, -, same | other⟩
          · rcases same with ⟨rfl, rfl⟩
            rw [Text.bytes_cons, encoded, List.singleton_append, List.length_cons,
              List.take_succ_cons, List.map_cons, List.cons.injEq,
              ih fun other member => ascii other (List.mem_cons_of_mem _ member)]
            simp
          · rw [Text.bytes_cons, encoded, List.cons_append, List.length_cons, List.take_succ_cons,
              List.map_cons]
            constructor
            · intro found
              exact absurd (List.cons.inj found).1 (ofUInt8_ne_of_isWide other.1 ascii')
            · rintro ⟨tail, found⟩
              exact absurd ((List.cons.inj found).1 ▸ ascii') other.2

theorem read_of_long {first : Char} (long : first.utf8Size ≠ 1) (offset : Nat)
    (rest : List Char) : read offset first rest = .error (.unexpectedChar offset first) := by
  unfold read
  split
  case h_12 => rw [isWordStart_eq_false_of_long long, if_neg Bool.false_ne_true]
  all_goals exact absurd (by decide) long

theorem readBytes_of_isWide {byte : UInt8} (wide : IsWide byte) (source : List Char)
    (offset : Nat) (rest : List UInt8) :
    readBytes source offset byte rest = .error (unexpected source offset) := by
  rw [IsWide] at wide
  rw [readBytes]
  generalize Char.ofUInt8 byte = first at wide
  split
  case h_12 => rw [isWordStart_eq_false_of_long wide, if_neg Bool.false_ne_true]
  all_goals exact absurd (by decide) wide

/-- Reading from the bytes of a source gives what reading from its characters gives. -/
theorem readBytes_eq (before : List Char) (first : Char) (rest : List Char) {byte : UInt8}
    {later : List UInt8} (split : bytes (first :: rest) = byte :: later) :
    readBytes (before ++ first :: rest) (byteCount before) byte later =
      match read (byteCount before) first rest with
      | .error error => .error (.error error)
      | .ok (token, width, _) => .ok (token, width - 1) := by
  rcases Text.exists_utf8EncodeChar first with ⟨head, others, encoded, wide, same | other⟩
  · rcases same with ⟨same, rfl⟩
    rw [Text.bytes_cons, encoded, List.singleton_append] at split
    cases split
    rw [readBytes, same]
    split
    case h_9 => -- a pair of ampersands
      have pair : ((bytes rest).take 1).map Char.ofUInt8 = ['&'] ↔ _ :=
        take_bytes_iff ['&'] (List.forall_mem_singleton.mpr rfl) rest
      by_cases isPair : ∃ tail, rest = ['&'] ++ tail
      · rw [if_pos (pair.mpr isPair)]
        rcases isPair with ⟨tail, rfl⟩
        rfl
      · rw [if_neg (isPair ∘ pair.mp), unexpected_eq, read]
        rintro tail rfl
        exact isPair ⟨tail, rfl⟩
    case h_10 => -- three signs of equality, or a single one
      have triple : ((bytes rest).take 2).map Char.ofUInt8 = ['=', '='] ↔ _ :=
        take_bytes_iff ['=', '=']
          (List.forall_mem_cons.mpr ⟨rfl, List.forall_mem_singleton.mpr rfl⟩) rest
      by_cases isTriple : ∃ tail, rest = ['=', '='] ++ tail
      · rw [if_pos (triple.mpr isTriple)]
        rcases isTriple with ⟨tail, rfl⟩
        rfl
      · rw [if_neg (isTriple ∘ triple.mp), read]
        rintro tail rfl
        exact isTriple ⟨tail, rfl⟩
    case h_11 => -- a string
      rw [literalBytes_eq, read]
      cases Json.Quoted.read rest <;> rfl
    case h_12 => -- a word
      rw [read]
      · by_cases start : isWordStart first = true
        · rw [if_pos start, if_pos start, wordBytes_eq start]
          rfl
        · rw [if_neg start, if_neg start, unexpected_eq]
      all_goals assumption
    all_goals rfl
  · rw [Text.bytes_cons, encoded, List.cons_append] at split
    cases split
    rw [readBytes_of_isWide other.1, read_of_long other.2, unexpected_eq]

/-! ### Sources -/

theorem isBlank_eq_false_of_long {character : Char} (long : character.utf8Size ≠ 1) :
    isBlank character = false :=
  Bool.eq_false_iff.mpr fun blank => long (utf8Size_of_isBlank blank)

/-- The first byte of a character is blank if the character is. -/
theorem exists_bytes_cons (first : Char) (rest : List Char) :
    ∃ byte later, bytes (first :: rest) = byte :: later ∧
      isBlank (Char.ofUInt8 byte) = isBlank first ∧
      (isBlank first = true → later = bytes rest) := by
  rcases Text.exists_utf8EncodeChar first with ⟨byte, others, encoded, -, same | other⟩
  · rcases same with ⟨same, rfl⟩
    refine ⟨byte, bytes rest, ?_, by rw [same], fun _ => rfl⟩
    rw [Text.bytes_cons, encoded, List.singleton_append]
  · have visible := isBlank_eq_false_of_long other.2
    refine ⟨byte, others ++ bytes rest, ?_, ?_, by simp [visible]⟩
    · rw [Text.bytes_cons, encoded, List.cons_append]
    · rw [isBlank_eq_false_of_long other.1, visible]

theorem scanBytesFrom_eq {text : List Char} {offset : Nat} (found : List Located)
    (before : List Char) (position : byteCount before = offset) :
    scanBytesFrom (before ++ text) found offset (bytes text) =
      (scanFrom found offset text).mapError Stop.error := by
  fun_induction scanFrom found offset text generalizing before with
  | case1 found offset =>
      rw [Text.bytes_nil, scanBytesFrom]
      rfl
  | case2 found offset first rest blank ih =>
      rcases exists_bytes_cons first rest with ⟨byte, later, split, sameBlank, onlyByte⟩
      have next := ih (before ++ [first])
        (by rw [Text.byteCount_append, position, Text.byteCount_cons, utf8Size_of_isBlank blank]
            rfl)
      rw [split, scanBytesFrom, if_pos (sameBlank ▸ blank), onlyByte blank, ← next,
        List.append_assoc, List.singleton_append]
  | case3 found offset first rest visible error failed =>
      rcases exists_bytes_cons first rest with ⟨byte, later, split, sameBlank, -⟩
      have read := readBytes_eq before first rest split
      rw [position, failed] at read
      rw [split, scanBytesFrom, if_neg (sameBlank ▸ visible), read]
      rfl
  | case4 found offset first rest visible token width tail tokenRead ih =>
      rcases exists_bytes_cons first rest with ⟨byte, later, split, sameBlank, -⟩
      have read := readBytes_eq before first rest split
      rw [position, tokenRead] at read
      rcases read_split tokenRead with ⟨others, rfl, count⟩
      have next := ih (before ++ first :: others) (by rw [Text.byteCount_append, position, count])
      have positive : 0 < width := by
        have firstPositive := first.utf8Size_pos
        rw [← count, Text.byteCount_cons]
        omega
      have remaining : later.drop (width - 1) = bytes tail := by
        have whole : (byte :: later).drop width = bytes tail := by
          rw [← split, ← List.cons_append, Text.bytes_append,
            List.drop_left' (by rw [Text.length_bytes, count])]
        rwa [← Nat.sub_add_cancel positive, List.drop_succ_cons] at whole
      rw [split, scanBytesFrom, if_neg (sameBlank ▸ visible), read]
      simp only [remaining]
      rw [Nat.add_assoc offset, Nat.add_sub_cancel' positive, ← next, List.append_assoc,
        List.cons_append]

/-- A source is split in the same way by its bytes as by its characters, and no slice divides a
character. -/
theorem scanBytes_eq (source : List Char) :
    scanBytes source = (scan source).mapError Stop.error :=
  scanBytesFrom_eq [] [] rfl

end Token

end Check

end JsonShape
