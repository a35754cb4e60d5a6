import Mathlib.Data.List.Basic
import JsonShape.Proofs.Check.Bytes

/-!
# Sources and their tokens

A source that is split into tokens is made of lexemes: each is a spelling of its token with blanks
in front of it, and behind the last one there may be blanks again. Every spelling is as long as it
can be (`Lexeme.Maximal`), and lexemes with blanks between them are split into their tokens again
(`written_of_gaps`).

Any other source is split up to the character at which it fails, and there it has no spelling of any
token (`exists_cut_of_scanFrom`).
-/

namespace JsonShape

namespace Check

namespace Token

open Text (byteCount)

/-- A token as it stands in a source, behind its blanks. -/
structure Lexeme where
  gap : List Char
  spelling : List Char
  token : Token
  blanks : ∀ character ∈ gap, isBlank character = true
  spells : Spells spelling token

namespace Lexeme

def text : List Lexeme → List Char
  | [] => []
  | lexeme :: rest => lexeme.gap ++ (lexeme.spelling ++ text rest)

/-- The tokens with their offsets in a text that begins at a given offset. -/
def located (offset : Nat) : List Lexeme → List Located
  | [] => []
  | lexeme :: rest =>
      ⟨offset + byteCount lexeme.gap, lexeme.token⟩ ::
        located (offset + byteCount lexeme.gap + byteCount lexeme.spelling) rest

/-- The lexeme is as long as it can be between two parts of a source. -/
structure Maximal (before : List Char) (lexeme : Lexeme) (after : List Char) : Prop where
  /-- Nothing longer spells a token here. -/
  longest : ∀ (more rest : List Char) (other : Token),
    after = more ++ rest → Spells (lexeme.spelling ++ more) other → more = []
  /-- A word goes on to neither side. -/
  whole : ∀ first ∈ lexeme.spelling.head?, isWordStart first = true →
    (∀ previous ∈ before.getLast?, isWordPart previous = false) ∧
      ∀ next ∈ after.head?, isWordPart next = false

theorem text_append (before after : List Lexeme) :
    text (before ++ after) = text before ++ text after := by
  induction before with
  | nil => rfl
  | cons lexeme before ih =>
      rw [List.cons_append, text, text, ih, List.append_assoc, List.append_assoc]

/-- Each token ends where the text goes on behind its spelling. -/
def Separate (trailing : List Char) : List Lexeme → Prop
  | [] => True
  | lexeme :: rest => Ends lexeme.token (text rest ++ trailing) ∧ Separate trailing rest

theorem Separate.ends {trailing : List Char} {before after : List Lexeme} {lexeme : Lexeme}
    (separate : Separate trailing (before ++ lexeme :: after)) :
    Ends lexeme.token (text after ++ trailing) := by
  induction before with
  | nil => exact separate.1
  | cons first before ih => exact ih separate.2

end Lexeme

section Spelling

variable {spelling after : List Char} {token : Token}

theorem ends_nil (token : Token) : Ends token [] := by
  cases token with
  | reserved | name => nofun
  | assign => nofun
  | _ => trivial

/-- Where a token ends, nothing longer spells a token. -/
theorem eq_nil_of_ends (spelled : Spells spelling token) {more rest : List Char} {other : Token}
    (ends : Ends token (more ++ rest)) (longer : Spells (spelling ++ more) other) : more = [] := by
  rcases read_of_spells spelled ends.of_append with ⟨first, later, rfl, -, short⟩
  rcases read_of_spells longer (ends_nil other) with ⟨otherFirst, whole, same, -, long⟩
  rw [List.cons_append, List.cons.injEq] at same
  rcases same with ⟨rfl, rfl⟩
  have found := short 0
  have foundLonger := long 0
  rw [List.append_nil, found, Except.ok.injEq, Prod.mk.injEq, Prod.mk.injEq] at foundLonger
  exact foundLonger.2.2

/-- What ends like a word is a word, and no word goes on behind it. -/
theorem not_isWordPart_of_ends (spelled : Spells spelling token) (ends : Ends token after)
    (endsInWord : ∃ last ∈ spelling.getLast?, isWordPart last = true) :
    ∀ next ∈ after.head?, isWordPart next = false := by
  rcases endsInWord with ⟨last, isLast, part⟩
  cases spelled with
  | word start parts => exact ends_ofWord ends
  | literal isLiteral =>
      rcases isLiteral with ⟨whole, width, rfl, literal⟩
      rcases Json.Quoted.exists_body_of_read literal with ⟨body, rfl, -, -⟩
      rw [← List.cons_append, List.getLast?_concat] at isLast
      cases isLast
      cases part
  | symbol found =>
      cases token <;> cases found <;> cases isLast <;> cases part

/-- What begins like a word is a word. -/
theorem isWordPart_of_start (spelled : Spells spelling token) {first : Char}
    (begins : first ∈ spelling.head?) (start : isWordStart first = true) :
    ∀ character ∈ spelling, isWordPart character = true := by
  cases spelled with
  | word begin parts =>
      exact List.forall_mem_cons.mpr ⟨isWordPart_of_isWordStart begin, parts⟩
  | literal isLiteral =>
      rcases isLiteral with ⟨body, width, rfl, -⟩
      cases begins
      cases start
  | symbol found =>
      cases token <;> cases found <;> cases begins <;> cases start

/-- A string is spelled by its literals only. -/
theorem isLiteral_of_spells {value : String} (spelled : Spells spelling (.text value)) :
    IsLiteral spelling value := by
  generalize isText : Token.text value = token at spelled
  cases spelled with
  | @word first rest start parts =>
      simp only [ofWord] at isText
      split at isText <;> cases isText
  | literal isLiteral =>
      cases isText
      exact isLiteral
  | symbol found =>
      cases isText
      cases found

/-- A token can be read wherever a spelling of one stands, though not always that one. -/
theorem exists_read_of_spells (spelled : Spells spelling token) (offset : Nat) (rest : List Char) :
    ∃ first later, spelling = first :: later ∧
      ∀ error, read offset first (later ++ rest) ≠ .error error := by
  have reads {first : Char} {later : List Char} {found : Token × Nat × List Char}
      (found : read offset first (later ++ rest) = .ok found) (error : Error) :
      read offset first (later ++ rest) ≠ .error error := by
    simp only [found, ne_eq, reduceCtorEq, not_false_eq_true]
  cases spelled with
  | @word first later start parts =>
      have taken : ∀ character ∈ (later ++ rest).takeWhile isWordPart,
          isWordPart character = true := List.all_eq_true.mp List.all_takeWhile
      have stops : ∀ next ∈ ((later ++ rest).dropWhile isWordPart).head?,
          isWordPart next = false := by
        intro next isNext
        have stops := List.head?_dropWhile_not isWordPart (later ++ rest)
        rwa [isNext] at stops
      have run := read_word start taken stops offset
      rw [List.takeWhile_append_dropWhile] at run
      exact ⟨first, later, rfl, reads run⟩
  | @literal _ value isLiteral =>
      rcases isLiteral with ⟨body, width, rfl, literal⟩
      have found : read offset '"' (body ++ rest) =
          .ok (.text (String.ofList value.toList), width + 1, [] ++ rest) := by
        simp only [read, Json.Quoted.read_append literal rest]
      exact ⟨'"', body, rfl, reads found⟩
  | symbol found =>
      cases token with
      | reserved | name | text => cases found
      | assign =>
          cases found
          refine ⟨'=', [], rfl, ?_⟩
          by_cases isTriple : ∃ more, rest = '=' :: '=' :: more
          · rcases isTriple with ⟨more, rfl⟩
            exact reads rfl
          · have found : read offset '=' rest = .ok (.assign, 1, rest) := by
              rw [read]
              exact fun more same => isTriple ⟨more, same⟩
            exact reads found
      | _ =>
          cases found
          exact ⟨_, _, rfl, reads rfl⟩

theorem eq_of_read_error {offset : Nat} {first : Char} {rest : List Char} {error : Error}
    (failed : read offset first rest = .error error) :
    error = if first = '"' then .invalidString offset else .unexpectedChar offset first := by
  simp only [read] at failed
  split at failed
  case h_9 =>
    split at failed <;> cases failed
    rfl
  case h_10 =>
    split at failed <;> cases failed
  case h_11 =>
    split at failed <;> cases failed
    rfl
  case h_12 notQuote =>
    split at failed <;> cases failed
    rw [if_neg notQuote]
  all_goals cases failed

end Spelling

/-! ### From a source to its lexemes -/

section Layout

variable {offset : Nat} {tokens : List Located} {source trailing : List Char}

theorem exists_lexemes_of_written (written : Written offset tokens source) :
    ∃ (lexemes : List Lexeme) (trailing : List Char),
      (∀ character ∈ trailing, isBlank character = true) ∧
        source = Lexeme.text lexemes ++ trailing ∧ tokens = Lexeme.located offset lexemes ∧
        Lexeme.Separate trailing lexemes := by
  induction written with
  | nil => exact ⟨[], [], by simp, rfl, rfl, trivial⟩
  | @blank offset tokens rest character blank written ih =>
      rcases ih with ⟨lexemes, trailing, blanks, rfl, rfl, separate⟩
      cases lexemes with
      | nil => exact ⟨[], character :: trailing, List.forall_mem_cons.mpr ⟨blank, blanks⟩, rfl, rfl,
          trivial⟩
      | cons lexeme later =>
          refine ⟨{ lexeme with
            gap := character :: lexeme.gap
            blanks := List.forall_mem_cons.mpr ⟨blank, lexeme.blanks⟩ } :: later, trailing, blanks,
            rfl, ?_, separate⟩
          simp only [Lexeme.located, Text.byteCount_cons, utf8Size_of_isBlank blank, Nat.add_assoc]
  | @token offset token spelling tokens rest spelled ends written ih =>
      rcases ih with ⟨lexemes, trailing, blanks, rfl, rfl, separate⟩
      refine ⟨⟨[], spelling, token, nofun, spelled⟩ :: lexemes, trailing, blanks, ?_, rfl, ends,
        separate⟩
      rw [Lexeme.text, List.nil_append, List.append_assoc]

theorem Written.blanks {gap : List Char} (blanks : ∀ character ∈ gap, isBlank character = true)
    (written : Written (offset + byteCount gap) tokens source) :
    Written offset tokens (gap ++ source) := by
  induction gap generalizing offset with
  | nil => exact written
  | cons character gap ih =>
      rcases List.forall_mem_cons.mp blanks with ⟨blank, later⟩
      refine .blank blank (ih later ?_)
      rwa [Text.byteCount_cons, utf8Size_of_isBlank blank, ← Nat.add_assoc] at written

theorem delimits_of_isBlank {character : Char} (blank : isBlank character = true) :
    isWordPart character = false ∧ character ≠ '=' := by
  simp only [isBlank, Bool.or_eq_true, decide_eq_true_eq] at blank
  rcases blank with ((rfl | rfl) | rfl) | rfl <;> decide

theorem delimited_of_blanks {gap : List Char}
    (blanks : ∀ character ∈ gap, isBlank character = true) (separated : gap = [] → source = []) :
    Delimited (gap ++ source) := by
  cases gap with
  | nil =>
      rw [separated rfl]
      nofun
  | cons character gap =>
      exact delimited_cons (delimits_of_isBlank (blanks character List.mem_cons_self))

/-- Lexemes with blanks between them are split into their tokens. -/
theorem written_of_gaps {lexemes : List Lexeme}
    (blanks : ∀ character ∈ trailing, isBlank character = true)
    (gaps : ∀ lexeme ∈ lexemes.tail, lexeme.gap ≠ []) :
    Written offset (Lexeme.located offset lexemes) (Lexeme.text lexemes ++ trailing) := by
  induction lexemes generalizing offset with
  | nil =>
      have written : Written offset [] (trailing ++ []) := .blanks blanks .nil
      rwa [List.append_nil] at written
  | cons lexeme rest ih =>
      have delimited : Delimited (Lexeme.text rest ++ trailing) := by
        cases rest with
        | nil =>
            have delimited : Delimited (trailing ++ []) := delimited_of_blanks blanks fun _ => rfl
            rwa [List.append_nil] at delimited
        | cons next rest =>
            rw [Lexeme.text, List.append_assoc]
            exact delimited_of_blanks next.blanks
              fun none => absurd none (gaps next List.mem_cons_self)
      rw [Lexeme.text, Lexeme.located, List.append_assoc, List.append_assoc]
      apply Written.blanks lexeme.blanks
      apply Written.token lexeme.spells (delimited.ends lexeme.token)
      exact ih fun other member => gaps other (List.mem_of_mem_tail member)

namespace Lexeme

theorem spelling_pos (lexeme : Lexeme) : 0 < byteCount lexeme.spelling :=
  Nat.lt_of_lt_of_le (List.length_pos_iff.mpr lexeme.spells.ne_nil)
    (Text.length_le_byteCount lexeme.spelling)

/-- A lexeme stands behind the text of those in front of it. -/
theorem exists_of_mem_located {lexemes : List Lexeme} {token : Located}
    (member : token ∈ located offset lexemes) :
    ∃ before lexeme after, lexemes = before ++ lexeme :: after ∧
      token = ⟨offset + byteCount (text before ++ lexeme.gap), lexeme.token⟩ := by
  induction lexemes generalizing offset with
  | nil => cases member
  | cons first rest ih =>
      rcases List.mem_cons.mp member with rfl | later
      · exact ⟨[], first, rest, rfl, rfl⟩
      · rcases ih later with ⟨before, lexeme, after, rfl, rfl⟩
        refine ⟨first :: before, lexeme, after, rfl, ?_⟩
        simp only [text, Text.byteCount_append, Nat.add_assoc]

theorem offset_le_of_mem_located {lexemes : List Lexeme} {token : Located}
    (member : token ∈ located offset lexemes) : offset ≤ token.offset := by
  rcases exists_of_mem_located member with ⟨before, lexeme, after, rfl, rfl⟩
  exact Nat.le_add_right _ _

theorem pairwise_located (lexemes : List Lexeme) :
    (located offset lexemes).Pairwise (Located.offset · < Located.offset ·) := by
  induction lexemes generalizing offset with
  | nil => exact List.Pairwise.nil
  | cons lexeme rest ih =>
      refine List.pairwise_cons.mpr ⟨fun token member => ?_, ih⟩
      have behind := offset_le_of_mem_located member
      have positive := lexeme.spelling_pos
      dsimp only
      omega

theorem isBoundary_of_mem_located {lexemes : List Lexeme} {token : Located}
    (member : token ∈ located 0 lexemes) :
    Text.IsBoundary (text lexemes ++ trailing) token.offset := by
  rcases exists_of_mem_located member with ⟨before, lexeme, after, rfl, rfl⟩
  refine ⟨text before ++ lexeme.gap, lexeme.spelling ++ text after ++ trailing, ?_, by simp⟩
  rw [text_append, text]
  simp only [List.append_assoc]

/-- A word does not begin in the middle of a word. -/
theorem not_isWordPart_before {before after : List Lexeme} {lexeme : Lexeme}
    (separate : Separate trailing (before ++ lexeme :: after)) {first : Char}
    (begins : first ∈ lexeme.spelling.head?) (start : isWordStart first = true) :
    ∀ previous ∈ (text before ++ lexeme.gap).getLast?, isWordPart previous = false := by
  intro previous isPrevious
  rw [List.getLast?_append] at isPrevious
  cases lastBlank : lexeme.gap.getLast? with
  | some character =>
      rw [lastBlank] at isPrevious
      cases isPrevious
      exact (delimits_of_isBlank (lexeme.blanks _ (List.mem_of_getLast? lastBlank))).1
  | none =>
      have noGap := List.getLast?_eq_none_iff.mp lastBlank
      rw [lastBlank, Option.none_or] at isPrevious
      rcases List.eq_nil_or_concat' before with rfl | ⟨earlier, neighbour, rfl⟩
      · cases isPrevious
      -- The lexeme in front ends here, and so it is no word if a word begins here.
      rw [List.append_assoc, List.singleton_append] at separate
      have adjacent : Ends neighbour.token (lexeme.spelling ++ (text after ++ trailing)) := by
        have ends := separate.ends
        rwa [text, noGap, List.nil_append, List.append_assoc] at ends
      have isLast : previous ∈ neighbour.spelling.getLast? := by
        rw [text_append, text, text, List.append_nil, List.getLast?_append, List.getLast?_append,
          Option.or_assoc] at isPrevious
        rcases List.getLast?_eq_some_getLast neighbour.spells.ne_nil with last
        rw [last, Option.some_or] at isPrevious
        rwa [last]
      apply Bool.eq_false_iff.mpr
      intro part
      have stops := not_isWordPart_of_ends neighbour.spells adjacent ⟨previous, isLast, part⟩ first
        (by rw [List.head?_append, begins, Option.some_or]; rfl)
      rw [isWordPart_of_isWordStart start] at stops
      cases stops

/-- Lexemes that end where the source goes on are as long as they can be. -/
theorem maximal_of_separate {before after : List Lexeme} {lexeme : Lexeme}
    (separate : Separate trailing (before ++ lexeme :: after)) :
    Maximal (text before ++ lexeme.gap) lexeme (text after ++ trailing) := by
  have ends := separate.ends
  refine ⟨fun more rest other split longer => ?_, fun first begins start => ⟨?_, ?_⟩⟩
  · exact eq_nil_of_ends lexeme.spells (split ▸ ends) longer
  · exact not_isWordPart_before separate begins start
  · have last := List.getLast?_eq_some_getLast lexeme.spells.ne_nil
    exact not_isWordPart_of_ends lexeme.spells ends ⟨_, last,
      isWordPart_of_start lexeme.spells begins start _ (List.mem_of_getLast? last)⟩

end Lexeme

end Layout

/-! ### From a failure to its place -/

theorem exists_cut_of_scanFrom {found : List Located} {offset : Nat} {source : List Char}
    {error : Error} (failed : scanFrom found offset source = .error error) :
    ∃ before first after tokens, source = before ++ first :: after ∧
      Written offset tokens before ∧ isBlank first = false ∧
      read (offset + byteCount before) first after = .error error := by
  fun_induction scanFrom found offset source with
  | case1 => cases failed
  | case2 found offset first rest blank ih =>
      rcases ih failed with ⟨before, other, after, tokens, rfl, written, visible, stops⟩
      refine ⟨first :: before, other, after, tokens, rfl, .blank blank written, visible, ?_⟩
      rwa [Text.byteCount_cons, utf8Size_of_isBlank blank, ← Nat.add_assoc]
  | case3 found offset first rest visible stop stops =>
      cases failed
      exact ⟨[], first, rest, [], rfl, .nil, Bool.eq_false_iff.mpr visible, stops⟩
  | case4 found offset first rest visible token width tail tokenRead ih =>
      rcases ih failed with ⟨before, other, after, tokens, rfl, written, unseen, stops⟩
      rcases exists_spells_of_read tokenRead with ⟨later, rfl, spelled, ends⟩
      rcases read_split tokenRead with ⟨same, split, count⟩
      rw [← List.append_cancel_right split] at count
      rw [← count] at written stops
      refine ⟨first :: later ++ before, other, after, _, by simp,
        .token spelled ends.of_append written, unseen, ?_⟩
      rwa [Text.byteCount_append, ← Nat.add_assoc]

/-- No slice divides a character, and a source is split by its bytes as by its characters.

Either it is made of lexemes with blanks behind them. Then its tokens stand at their offsets, which
are in order and lie between characters; a string is what JSON reads from its spelling, and no token
could be longer. Or some character in it is no blank and begins no spelling of a token, while all in
front of it is split. Then this character and its offset are what the error names.

And lexemes with blanks between them are split into their tokens, whatever their spellings are. -/
theorem scanBytes_lossless :
    (∀ source : List Char,
      scanBytes source = (scan source).mapError Stop.error ∧
      ((∃ (lexemes : List Lexeme) (trailing : List Char),
          (∀ character ∈ trailing, isBlank character = true) ∧
          source = Lexeme.text lexemes ++ trailing ∧
          scanBytes source = .ok (Lexeme.located 0 lexemes) ∧
          (Lexeme.located 0 lexemes).Pairwise (Located.offset · < Located.offset ·) ∧
          (∀ located ∈ Lexeme.located 0 lexemes, Text.IsBoundary source located.offset) ∧
          (∀ lexeme ∈ lexemes, ∀ value : String,
            lexeme.token = .text value → IsLiteral lexeme.spelling value) ∧
          ∀ (before after : List Lexeme) (lexeme : Lexeme), lexemes = before ++ lexeme :: after →
            Lexeme.Maximal (Lexeme.text before ++ lexeme.gap) lexeme
              (Lexeme.text after ++ trailing)) ∨
        ∃ (before : List Char) (first : Char) (after : List Char) (tokens : List Located),
          source = before ++ first :: after ∧ scanBytes before = .ok tokens ∧
          isBlank first = false ∧
          (∀ (spelling rest : List Char) (token : Token),
            first :: after = spelling ++ rest → ¬Spells spelling token) ∧
          scanBytes source = .error (.error
            (if first = '"' then .invalidString (byteCount before)
              else .unexpectedChar (byteCount before) first)))) ∧
    ∀ (lexemes : List Lexeme) (trailing : List Char),
      (∀ character ∈ trailing, isBlank character = true) →
      (∀ lexeme ∈ lexemes.tail, lexeme.gap ≠ []) →
        scanBytes (Lexeme.text lexemes ++ trailing) = .ok (Lexeme.located 0 lexemes) := by
  refine ⟨fun source => ⟨scanBytes_eq source, ?_⟩, fun lexemes trailing blanks gaps => ?_⟩
  · cases scanned : scan source with
    | ok tokens =>
        rcases exists_lexemes_of_written (written_of_scan scanned) with
          ⟨lexemes, trailing, blanks, rfl, rfl, separate⟩
        refine .inl ⟨lexemes, trailing, blanks, rfl, ?_, Lexeme.pairwise_located lexemes,
          fun located member => Lexeme.isBoundary_of_mem_located member, ?_, ?_⟩
        · rw [scanBytes_eq, scanned]
          rfl
        · intro lexeme member value isText
          exact isLiteral_of_spells (isText ▸ lexeme.spells)
        · rintro before after lexeme rfl
          exact Lexeme.maximal_of_separate separate
    | error error =>
        rcases exists_cut_of_scanFrom scanned with
          ⟨before, first, after, tokens, rfl, written, visible, stops⟩
        refine .inr ⟨before, first, after, tokens, rfl, ?_, visible, ?_, ?_⟩
        · rw [scanBytes_eq, scan_of_written written]
          rfl
        · intro spelling rest token split spelled
          rcases exists_read_of_spells spelled (0 + byteCount before) rest with
            ⟨begin, later, rfl, reads⟩
          rw [List.cons_append, List.cons.injEq] at split
          rcases split with ⟨rfl, rfl⟩
          exact reads error stops
        · rw [scanBytes_eq, scanned, eq_of_read_error stops, Nat.zero_add]
          rfl
  · rw [scanBytes_eq, scan_of_written (written_of_gaps blanks gaps)]
    rfl

/-- A string with an escape and with a character of two bytes, a keyword and a name. -/
theorem scanBytes_lossless_literal :
    scanBytes "\"\\u00e9é\" in\tvalue\n".toList =
      .ok [⟨0, .text "éé"⟩, ⟨11, .reserved .inWord⟩, ⟨14, .name "value"⟩] := by
  have literal : IsLiteral "\"\\u00e9é\"".toList "éé" :=
    ⟨"\\u00e9é\"".toList, 9, rfl, by decide +kernel⟩
  have parts := List.all_eq_true.mp (show "alue".toList.all isWordPart = true by decide)
  have isName : IsName "value" := ⟨⟨'v', "alue".toList, rfl, by decide, parts⟩, by decide⟩
  have blank (character : Char) (isBlank : isBlank character = true) :
      ∀ other ∈ [character], Token.isBlank other = true :=
    List.forall_mem_singleton.mpr isBlank
  exact scanBytes_lossless.2
    [⟨[], _, _, nofun, .literal literal⟩,
      ⟨[' '], _, _, blank ' ' rfl, spells_keyword .inWord⟩,
      ⟨['\t'], _, _, blank '\t' rfl, isName.spells⟩]
    ['\n'] (blank '\n' rfl) (by simp)

end Token

end Check

end JsonShape
