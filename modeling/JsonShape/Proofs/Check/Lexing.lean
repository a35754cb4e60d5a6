import JsonShape.Check.Token
import JsonShape.Proofs.Json.Quoted

/-!
# Texts that spell tokens

`Spells` says how each token may be written, and `Ends` what may follow it at once: a word must
not be followed by more of a word, and `=` not by `==`. Nothing else can run together, so a text
in which each token is spelled, ends where the next one begins, and may have blanks before it, is
split into just these tokens (`scan_of_written`).
-/

namespace JsonShape

namespace Check

namespace Token

/-- A JSON string literal, with its quotes, and the string that it stands for. -/
def IsLiteral (spelling : List Char) (value : String) : Prop :=
  ∃ body width, spelling = '"' :: body ∧ Json.Quoted.read body = .ok (value.toList, width, [])

/-- How a token is written that has one spelling and is no word. -/
def symbol? : Token → Option (List Char)
  | .same => some ['=', '=', '=']
  | .assign => some ['=']
  | .and => some ['&', '&']
  | .not => some ['!']
  | .question => some ['?']
  | .colon => some [':']
  | .comma => some [',']
  | .openParen => some ['(']
  | .closeParen => some [')']
  | .openBracket => some ['[']
  | .closeBracket => some [']']
  | .reserved _ | .name _ | .text _ => none

/-- The spellings of a token. -/
inductive Spells : List Char → Token → Prop
  | word {first : Char} {rest : List Char} (start : isWordStart first = true)
      (parts : ∀ character ∈ rest, isWordPart character = true) :
      Spells (first :: rest) (ofWord (String.ofList (first :: rest)))
  | literal {spelling : List Char} {value : String} (literal : IsLiteral spelling value) :
      Spells spelling (.text value)
  | symbol {token : Token} {spelling : List Char} (found : token.symbol? = some spelling) :
      Spells spelling token

/-- A token ends where the text goes on. -/
def Ends : Token → List Char → Prop
  | .reserved _, rest | .name _, rest => ∀ next ∈ rest.head?, isWordPart next = false
  | .assign, rest => ∀ more, rest ≠ '=' :: '=' :: more
  | _, _ => True

/-- A text spells tokens at their offsets, where it begins at a given offset. -/
inductive Written : Nat → List Located → List Char → Prop
  | nil {offset} : Written offset [] []
  | blank {offset tokens rest character} (blank : isBlank character = true)
      (written : Written (offset + 1) tokens rest) : Written offset tokens (character :: rest)
  | token {offset token spelling tokens rest} (spelled : Spells spelling token)
      (ends : Ends token rest)
      (written : Written (offset + Text.byteCount spelling) tokens rest) :
      Written offset (⟨offset, token⟩ :: tokens) (spelling ++ rest)

section Read

variable {first : Char} {later rest : List Char}

theorem takeWhile_append_of_ends (parts : ∀ character ∈ later, isWordPart character = true)
    (ends : ∀ next ∈ rest.head?, isWordPart next = false) :
    (later ++ rest).takeWhile isWordPart = later ∧ (later ++ rest).dropWhile isWordPart = rest := by
  induction later with
  | nil =>
      cases rest with
      | nil => exact ⟨rfl, rfl⟩
      | cons next more =>
          have stops := ends next rfl
          exact ⟨List.takeWhile_cons_of_neg (by simp [stops]),
            List.dropWhile_cons_of_neg (by simp [stops])⟩
  | cons character later ih =>
      have part := parts character (by simp)
      rcases ih fun other member => parts other (by simp [member]) with ⟨taken, dropped⟩
      rw [List.cons_append, List.takeWhile_cons_of_pos part, List.dropWhile_cons_of_pos part,
        taken, dropped]
      exact ⟨rfl, rfl⟩

theorem not_isBlank_of_isWordStart (start : isWordStart first = true) : isBlank first = false := by
  apply Bool.eq_false_iff.mpr
  intro blank
  simp only [isBlank, Bool.or_eq_true, decide_eq_true_eq] at blank
  rcases blank with ((rfl | rfl) | rfl) | rfl <;> exact absurd start (by decide)

theorem ends_ofWord {word : String} (ends : Ends (ofWord word) rest) :
    ∀ next ∈ rest.head?, isWordPart next = false := by
  simp only [ofWord] at ends
  split at ends
  · exact ends
  · exact ends

theorem read_word (start : isWordStart first = true)
    (parts : ∀ character ∈ later, isWordPart character = true)
    (ends : ∀ next ∈ rest.head?, isWordPart next = false) (offset : Nat) :
    read offset first (later ++ rest) =
      .ok (ofWord (String.ofList (first :: later)), later.length + 1, rest) := by
  rcases takeWhile_append_of_ends parts ends with ⟨taken, dropped⟩
  unfold read
  split
  case h_12 => rw [if_pos start, taken, dropped]
  all_goals exact absurd start (by decide)

/-- A spelling is read as its token where the token ends. -/
theorem read_of_spells {spelling : List Char} {token : Token} (spelled : Spells spelling token)
    (ends : Ends token rest) :
    ∃ first later, spelling = first :: later ∧ isBlank first = false ∧
      ∀ offset, read offset first (later ++ rest) = .ok (token, Text.byteCount spelling, rest) := by
  cases spelled with
  | @word first later start parts =>
      refine ⟨first, later, rfl, not_isBlank_of_isWordStart start, ?_⟩
      intro offset
      have width : Text.byteCount (first :: later) = later.length + 1 := by
        apply byteCount_eq_length
        intro character member
        rcases List.mem_cons.mp member with rfl | inside
        · exact isWordPart_of_isWordStart start
        · exact parts character inside
      rw [read_word start parts (ends_ofWord ends), width]
  | @literal _ value isLiteral =>
      rcases isLiteral with ⟨body, width, rfl, literal⟩
      refine ⟨'"', body, rfl, by decide, ?_⟩
      intro offset
      rcases Json.Quoted.read_split literal with ⟨whole, split, count⟩
      rw [List.append_nil] at split
      have longer := Json.Quoted.read_append literal rest
      rw [List.nil_append] at longer
      have quoteWidth : Char.utf8Size '"' = 1 := by decide
      rw [Text.byteCount_cons, split, count, quoteWidth, Nat.add_comm, ← split]
      simp only [read, longer, String.ofList_toList]
  | symbol found =>
      cases token with
      | reserved | name | text => cases found
      | assign =>
          cases found
          refine ⟨'=', [], rfl, by decide, ?_⟩
          intro offset
          rw [List.nil_append, read]
          · rfl
          · exact ends
      | _ =>
          cases found
          exact ⟨_, _, rfl, by decide, fun _ => rfl⟩

end Read

theorem scanFrom_of_spells {spelling rest : List Char} {token : Token}
    (spelled : Spells spelling token) (ends : Ends token rest) (found : List Located)
    (offset : Nat) :
    scanFrom found offset (spelling ++ rest) =
      scanFrom (⟨offset, token⟩ :: found) (offset + Text.byteCount spelling) rest := by
  rcases read_of_spells spelled ends with ⟨first, later, rfl, visible, read⟩
  rw [List.cons_append, scanFrom, if_neg (by simp [visible])]
  split
  · rename_i failed
    rw [read] at failed
    cases failed
  · rename_i found
    rw [read] at found
    cases found
    rfl

/-- A text that spells tokens is split into these tokens. -/
theorem scanFrom_of_written {offset : Nat} {tokens : List Located} {source : List Char}
    (written : Written offset tokens source) (found : List Located) :
    scanFrom found offset source = .ok (found.reverse ++ tokens) := by
  induction written generalizing found with
  | nil => rw [scanFrom, List.append_nil]
  | blank blank written ih => rw [scanFrom, if_pos blank, ih]
  | token spelled ends written ih =>
      rw [scanFrom_of_spells spelled ends, ih, List.reverse_cons, List.append_assoc,
        List.singleton_append]

/-- A text that spells tokens is split into these tokens. -/
theorem scan_of_written {tokens : List Located} {source : List Char}
    (written : Written 0 tokens source) : scan source = .ok tokens :=
  scanFrom_of_written written []

/-- Wherever the text begins, it spells the tokens. -/
def Writes (tokens : List Token) (source : List Char) : Prop :=
  ∀ offset, ∃ located : List Located,
    located.map Located.token = tokens ∧ Written offset located source

/-- No word goes on with the text, and nothing that begins with an equals sign. -/
def Delimited (source : List Char) : Prop :=
  ∀ next ∈ source.head?, isWordPart next = false ∧ next ≠ '='

theorem delimited_cons {next : Char} {rest : List Char}
    (delimits : isWordPart next = false ∧ next ≠ '=') : Delimited (next :: rest) := by
  intro first member
  cases member
  exact delimits

/-- The text begins with a character that delimits what stands before it. -/
def Delimits (source : String) : Prop :=
  source.toList.head?.any (fun next => !isWordPart next && next != '=') = true
  deriving Decidable

theorem Delimits.delimited {source : String} (delimits : Delimits source) (rest : List Char) :
    Delimited (source.toList ++ rest) := by
  simp only [Delimits] at delimits
  cases split : source.toList with
  | nil =>
      rw [split] at delimits
      cases delimits
  | cons next later =>
      rw [split] at delimits
      apply delimited_cons
      simpa using delimits

theorem Delimits.append {first : String} (delimits : Delimits first) (second : String) :
    Delimits (first ++ second) := by
  unfold Delimits at delimits ⊢
  rw [String.toList_append]
  cases split : first.toList with
  | nil =>
      rw [split] at delimits
      cases delimits
  | cons next later =>
      rw [split] at delimits
      exact delimits

theorem Delimited.ends {source : List Char} (delimited : Delimited source) (token : Token) :
    Ends token source := by
  cases token with
  | reserved | name => exact fun next member => (delimited next member).1
  | assign =>
      rintro more rfl
      exact (delimited '=' rfl).2 rfl
  | _ => trivial

/-- The words that can be bound: they are no keywords. -/
structure IsName (name : String) : Prop where
  word : ∃ first rest, name.toList = first :: rest ∧ isWordStart first = true ∧
    ∀ character ∈ rest, isWordPart character = true
  free : Keyword.ofSpelling? name = none

theorem IsName.spells {name : String} (isName : IsName name) : Spells name.toList (.name name) := by
  rcases isName.word with ⟨first, rest, split, start, parts⟩
  have spelled := Spells.word start parts
  rw [← split, String.ofList_toList, ofWord, isName.free] at spelled
  exact spelled

theorem spells_keyword (word : Keyword) : Spells word.spelling.toList (.reserved word) := by
  have start : ∃ first rest, word.spelling.toList = first :: rest ∧ isWordStart first = true ∧
      ∀ character ∈ rest, isWordPart character = true := by
    cases word <;> exact ⟨_, _, rfl, by decide, List.all_eq_true.mp (by decide)⟩
  rcases start with ⟨first, rest, split, start, parts⟩
  have spelled := Spells.word start parts
  rw [← split, String.ofList_toList, ofWord, Keyword.ofSpelling?_spelling] at spelled
  exact spelled

theorem isLiteral_encode (value : String) : IsLiteral (Json.Quoted.encode value).toList value := by
  refine ⟨_, _, by simp [Json.Quoted.encode], Json.Quoted.read_encodeBody value.toList []⟩

namespace Writes

variable {tokens : List Token} {spelling rest : List Char}

theorem nil : Writes [] [] :=
  fun _ => ⟨[], rfl, .nil⟩

theorem blank (written : Writes tokens rest) : Writes tokens (' ' :: rest) := by
  intro offset
  rcases written (offset + 1) with ⟨located, same, written⟩
  exact ⟨located, same, .blank (by decide) written⟩

theorem cons {token : Token} (spelled : Spells spelling token) (ends : Ends token rest)
    (written : Writes tokens rest) : Writes (token :: tokens) (spelling ++ rest) := by
  intro offset
  rcases written (offset + Text.byteCount spelling) with ⟨located, same, written⟩
  exact ⟨⟨offset, token⟩ :: located, by rw [List.map_cons, same], .token spelled ends written⟩

theorem symbol (token : Token) (found : token.symbol? = some spelling) (ends : Ends token rest)
    (written : Writes tokens rest) : Writes (token :: tokens) (spelling ++ rest) :=
  cons (.symbol found) ends written

theorem keyword (word : Keyword) (delimited : Delimited rest) (written : Writes tokens rest) :
    Writes (.reserved word :: tokens) (word.spelling.toList ++ rest) :=
  cons (spells_keyword word) (delimited.ends _) written

theorem name {name : String} (isName : IsName name) (delimited : Delimited rest)
    (written : Writes tokens rest) : Writes (.name name :: tokens) (name.toList ++ rest) :=
  cons isName.spells (delimited.ends _) written

theorem literal {value : String} (isLiteral : IsLiteral spelling value)
    (written : Writes tokens rest) : Writes (.text value :: tokens) (spelling ++ rest) :=
  cons (.literal isLiteral) trivial written

end Writes

/-- The text spells the tokens if what follows it is delimited. -/
def SpelledBy (tokens : List Token) (source : String) : Prop :=
  ∀ (more : List Token) (rest : List Char), Delimited rest → Writes more rest →
    Writes (tokens ++ more) (source.toList ++ rest)

/-- The text spells the tokens, whatever follows it. -/
def SealedBy (tokens : List Token) (source : String) : Prop :=
  ∀ (more : List Token) (rest : List Char), Writes more rest →
    Writes (tokens ++ more) (source.toList ++ rest)

section Compose

variable {first second : List Token} {firstText secondText : String}

theorem SealedBy.spelledBy (sealed : SealedBy first firstText) : SpelledBy first firstText :=
  fun more rest _ written => sealed more rest written

theorem SealedBy.append (sealedFirst : SealedBy first firstText)
    (sealedSecond : SealedBy second secondText) :
    SealedBy (first ++ second) (firstText ++ secondText) := by
  intro more rest written
  rw [String.toList_append, List.append_assoc, List.append_assoc]
  exact sealedFirst _ _ (sealedSecond more rest written)

/-- A text that must be followed by something delimited may stand behind any sealed text. -/
theorem SealedBy.open (sealedFirst : SealedBy first firstText)
    (spelledSecond : SpelledBy second secondText) :
    SpelledBy (first ++ second) (firstText ++ secondText) := by
  intro more rest delimited written
  rw [String.toList_append, List.append_assoc, List.append_assoc]
  exact sealedFirst _ _ (spelledSecond more rest delimited written)

theorem SpelledBy.seal (spelledFirst : SpelledBy first firstText)
    (sealedSecond : SealedBy second secondText) (delimits : Delimits secondText) :
    SealedBy (first ++ second) (firstText ++ secondText) := by
  intro more rest written
  rw [String.toList_append, List.append_assoc, List.append_assoc]
  exact spelledFirst _ _ (delimits.delimited rest) (sealedSecond more rest written)

theorem SpelledBy.append (spelledFirst : SpelledBy first firstText)
    (sealedSecond : SealedBy second secondText)
    (delimits : ∀ rest, Delimited rest → Delimited (secondText.toList ++ rest)) :
    SpelledBy (first ++ second) (firstText ++ secondText) := by
  intro more rest delimited written
  rw [String.toList_append, List.append_assoc, List.append_assoc]
  exact spelledFirst _ _ (delimits rest delimited) (sealedSecond more rest written)

theorem sealedBy_nil : SealedBy [] "" :=
  fun _ _ written => written

theorem sealedBy_encode (value : String) : SealedBy [.text value] (Json.Quoted.encode value) :=
  fun _ _ written => written.literal (isLiteral_encode value)

theorem IsName.spelledBy {name : String} (isName : IsName name) :
    SpelledBy [.name name] name :=
  fun _ _ delimited written => written.name isName delimited

end Compose

/-- A text that spells tokens is split into these tokens. -/
theorem SpelledBy.scan {tokens : List Token} {source : String}
    (spelled : SpelledBy tokens source) :
    ∃ located : List Located,
      located.map Located.token = tokens ∧ Token.scan source.toList = .ok located := by
  have delimited : Delimited [] := by
    intro next member
    cases member
  rcases spelled [] [] delimited .nil 0 with ⟨located, same, written⟩
  rw [List.append_nil] at same written
  exact ⟨located, same, scan_of_written written⟩

end Token

end Check

end JsonShape
