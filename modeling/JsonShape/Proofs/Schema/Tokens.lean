import JsonShape.Check.Grammar
import JsonShape.Proofs.Check.Lexing
import JsonShape.Schema.Emission

/-!
# The tokens of an emitted text

`Field.tokensAt` lists the tokens of what `Field.emitAt` writes, for a path given by its tokens.
The names of a schema occur in them as strings only. That the text is split into these tokens
needs one fact about each piece of it: whatever follows a word or a path begins with a blank, a
bracket, a parenthesis or a comma.
-/

namespace JsonShape

open Check

/-- The keyword of a truth value. -/
def Check.Token.ofBool : Bool → Token
  | true => .reserved .trueWord
  | false => .reserved .falseWord

namespace Field

def guardedTokens (path : List Token) (flags : Flags) (body : List Token) : List Token :=
  [Token.openParen] ++ path ++ [Token.same, .reserved .nullWord, .question] ++
    [Token.ofBool flags.nullable] ++ [Token.colon, .openParen] ++ path ++
    [Token.same, .reserved .undefinedWord, .question] ++ [Token.ofBool flags.optional] ++
    [Token.colon, .openParen] ++ body ++ [Token.closeParen, .closeParen, .closeParen]

def typeTokens (path : List Token) (kind : Json.Kind) : List Token :=
  [Token.reserved .typeofWord] ++ path ++ [Token.same] ++ [Token.text kind.spelling]

def unknownTokens (mode : UnknownKeys) (path : List Token) (declared : List String) : List Token :=
  match mode with
  | .ignore => []
  | .reject =>
      [Token.and, .reserved .onlyKeysWord, .openParen] ++ path ++ Token.ofListed declared ++
        [Token.closeParen]

def memberCheckTokens (path : List Token) (name : String) (optional : Bool) (bound : String)
    (inner : List Token) : List Token :=
  [Token.and, .openParen, .not, .openParen] ++ [Token.text name] ++ [Token.reserved .inWord] ++
    path ++ [Token.closeParen, .question] ++ [Token.ofBool optional] ++
    [Token.colon, .openParen, .reserved .letWord] ++ [Token.name bound] ++ [Token.assign] ++
    path ++ [Token.openBracket] ++ [Token.text name] ++
    [Token.closeBracket, .reserved .inWord, .openParen] ++ inner ++
    [Token.closeParen, .closeParen, .closeParen]

mutual

def tokensAt (mode : UnknownKeys) (path : List Token) (depth : Nat) : Field → List Token
  | .leaf type flags => guardedTokens path flags (typeTokens path type.kind)
  | .object members flags =>
      guardedTokens path flags
        (typeTokens path .object ++ memberTokens mode path (depth + 1) members ++
          unknownTokens mode path (Members.names members))

def memberTokens (mode : UnknownKeys) (path : List Token) (depth : Nat) :
    List (String × Field) → List Token
  | [] => []
  | (name, field) :: rest =>
      memberCheckTokens path name field.flags.optional (memberName depth)
        (tokensAt mode [.name (memberName depth)] depth field) ++ memberTokens mode path depth rest

end

theorem toList_memberName (depth : Nat) :
    (memberName depth).toList = 'v' :: Nat.toDigits 10 depth := by
  simp [memberName]

theorem isWordPart_of_mem_toDigits {depth : Nat} {digit : Char}
    (member : digit ∈ Nat.toDigits 10 depth) : Token.isWordPart digit = true := by
  have isDigit := Nat.isDigit_of_mem_toDigits (by decide) (by decide) member
  simp only [Char.isDigit, Bool.and_eq_true, decide_eq_true_eq] at isDigit
  simp only [Token.isWordPart, Bool.or_eq_true, Bool.and_eq_true, decide_eq_true_eq]
  exact .inr isDigit

theorem isName_memberName (depth : Nat) : Token.IsName (memberName depth) := by
  refine ⟨⟨'v', _, toList_memberName depth, by decide, fun _ => isWordPart_of_mem_toDigits⟩, ?_⟩
  apply List.find?_eq_none.mpr
  intro word _ same
  have spelled := congrArg (fun text => text.toList.head?) (of_decide_eq_true same)
  rw [toList_memberName, List.head?_cons] at spelled
  cases word <;> exact absurd spelled (by decide)

theorem spelledBy_ofBool (value : Bool) :
    Token.SpelledBy [Token.ofBool value] (toString value) := by
  intro more rest delimited written
  cases value with
  | true => exact .keyword .trueWord delimited written
  | false => exact .keyword .falseWord delimited written

/-! ### Punctuation -/

theorem sealedBy_open : Token.SealedBy [.openParen] "(" :=
  fun _ _ written => written.symbol .openParen rfl trivial

theorem sealedBy_close : Token.SealedBy [.closeParen] ")" :=
  fun _ _ written => written.symbol .closeParen rfl trivial

theorem sealedBy_closeAll : Token.SealedBy [.closeParen, .closeParen, .closeParen] ")))" := by
  intro more rest written
  have last := written.symbol .closeParen rfl trivial
  have middle := last.symbol .closeParen rfl trivial
  have first := middle.symbol .closeParen rfl trivial
  exact first

/-- The question whether the value in front is that of a keyword. -/
theorem sealedBy_isWord {text : String} (word : Keyword)
    (spelled : text = " === " ++ word.spelling ++ " ? ") :
    Token.SealedBy [.same, .reserved word, .question] text := by
  intro more rest written
  have question := (written.blank.symbol .question rfl trivial).blank
  have named := (question.keyword word (Token.delimited_cons (by decide))).blank
  have same := named.symbol .same rfl trivial
  rw [spelled, String.toList_append, String.toList_append, List.append_assoc, List.append_assoc]
  exact same.blank

theorem sealedBy_else : Token.SealedBy [.colon, .openParen] " : (" := by
  intro more rest written
  have group := (written.symbol .openParen rfl trivial).blank
  have colon := group.symbol .colon rfl trivial
  exact colon.blank

theorem sealedBy_typeof : Token.SealedBy [.reserved .typeofWord] "typeof " := by
  intro more rest written
  have word := written.blank.keyword .typeofWord (Token.delimited_cons (by decide))
  exact word

theorem sealedBy_same : Token.SealedBy [.same] " === " := by
  intro more rest written
  have same := written.blank.symbol .same rfl trivial
  exact same.blank

theorem sealedBy_onlyKeys :
    Token.SealedBy [.and, .reserved .onlyKeysWord, .openParen] " && onlyKeys(" := by
  intro more rest written
  have group := written.symbol .openParen rfl trivial
  have word := (group.keyword .onlyKeysWord (Token.delimited_cons (by decide))).blank
  have and := word.symbol .and rfl trivial
  exact and.blank

theorem sealedBy_comma : Token.SealedBy [.comma] ", " := by
  intro more rest written
  have comma := written.blank.symbol .comma rfl trivial
  exact comma

theorem sealedBy_missing :
    Token.SealedBy [.and, .openParen, .not, .openParen] " && (!(" := by
  intro more rest written
  have inner := written.symbol .openParen rfl trivial
  have not := inner.symbol .not rfl trivial
  have outer := (not.symbol .openParen rfl trivial).blank
  have and := outer.symbol .and rfl trivial
  exact and.blank

theorem sealedBy_in : Token.SealedBy [.reserved .inWord] " in " := by
  intro more rest written
  have word := written.blank.keyword .inWord (Token.delimited_cons (by decide))
  exact word.blank

theorem sealedBy_then : Token.SealedBy [.closeParen, .question] ") ? " := by
  intro more rest written
  have question := (written.blank.symbol .question rfl trivial).blank
  have close := question.symbol .closeParen rfl trivial
  exact close

theorem sealedBy_elseLet :
    Token.SealedBy [.colon, .openParen, .reserved .letWord] " : (let " := by
  intro more rest written
  have word := written.blank.keyword .letWord (Token.delimited_cons (by decide))
  have group := (word.symbol .openParen rfl trivial).blank
  have colon := group.symbol .colon rfl trivial
  exact colon.blank

theorem sealedBy_assign : Token.SealedBy [.assign] " = " := by
  intro more rest written
  have delimited : Token.Delimited (' ' :: rest) := Token.delimited_cons (by decide)
  have assign := written.blank.symbol .assign rfl (delimited.ends .assign)
  exact assign.blank

theorem sealedBy_bracket : Token.SealedBy [.openBracket] "[" :=
  fun _ _ written => written.symbol .openBracket rfl trivial

theorem sealedBy_inGroup :
    Token.SealedBy [.closeBracket, .reserved .inWord, .openParen] "] in (" := by
  intro more rest written
  have group := (written.symbol .openParen rfl trivial).blank
  have word := (group.keyword .inWord (Token.delimited_cons (by decide))).blank
  have close := word.symbol .closeBracket rfl trivial
  exact close

/-! ### Checks -/

section Checks

variable {path : List Token} {pathText : String}

theorem sealedBy_guarded {body : List Token} {bodyText : String}
    (pathSpelled : Token.SpelledBy path pathText) (flags : Flags)
    (bodySealed : Token.SealedBy body bodyText) :
    Token.SealedBy (guardedTokens path flags body) (guarded pathText flags bodyText) := by
  have isNull := (sealedBy_open.open pathSpelled).seal (sealedBy_isWord .nullWord rfl) (by decide)
  have nullable := (isNull.open (spelledBy_ofBool flags.nullable)).seal sealedBy_else (by decide)
  have isAbsent := (nullable.open pathSpelled).seal (sealedBy_isWord .undefinedWord rfl) (by decide)
  have optional := (isAbsent.open (spelledBy_ofBool flags.optional)).seal sealedBy_else (by decide)
  exact (optional.append bodySealed).append sealedBy_closeAll

theorem sealedBy_typeCheck (pathSpelled : Token.SpelledBy path pathText) (kind : Json.Kind) :
    Token.SealedBy (typeTokens path kind) (typeCheck pathText kind) := by
  have tested := (sealedBy_typeof.open pathSpelled).seal sealedBy_same (by decide)
  exact tested.append (Token.sealedBy_encode kind.spelling)

theorem sealedBy_listedNames (names : List String) :
    Token.SealedBy (Token.ofListed names) (listedNames names) := by
  induction names with
  | nil => exact Token.sealedBy_nil
  | cons name names ih => exact (sealedBy_comma.append (Token.sealedBy_encode name)).append ih

theorem delimited_listedNames (names : List String) (rest : List Char)
    (delimited : Token.Delimited rest) :
    Token.Delimited ((listedNames names).toList ++ rest) := by
  cases names with
  | nil => exact delimited
  | cons name names =>
      have comma : Token.Delimits ", " := by decide
      exact ((comma.append _).append _).delimited rest

theorem sealedBy_unknownCheck (pathSpelled : Token.SpelledBy path pathText) (mode : UnknownKeys)
    (declared : List String) :
    Token.SealedBy (unknownTokens mode path declared) (unknownCheck mode pathText declared) := by
  cases mode with
  | ignore => exact Token.sealedBy_nil
  | reject =>
      have names := (sealedBy_onlyKeys.open pathSpelled).append (sealedBy_listedNames declared)
        (delimited_listedNames declared)
      exact names.seal sealedBy_close (by decide)

theorem sealedBy_memberCheck {inner : List Token} {innerText : String}
    (pathSpelled : Token.SpelledBy path pathText) (name : String) (optional : Bool) (depth : Nat)
    (innerSealed : Token.SealedBy inner innerText) :
    Token.SealedBy (memberCheckTokens path name optional (memberName depth) inner)
      (" && (!(" ++ Json.Quoted.encode name ++ " in " ++ pathText ++ ") ? " ++ toString optional ++
        " : (let " ++ memberName depth ++ " = " ++ pathText ++ "[" ++ Json.Quoted.encode name ++
        "] in (" ++ innerText ++ ")))") := by
  have key := sealedBy_missing.append (Token.sealedBy_encode name)
  have tested := ((key.append sealedBy_in).open pathSpelled).seal sealedBy_then (by decide)
  have missing := (tested.open (spelledBy_ofBool optional)).seal sealedBy_elseLet (by decide)
  have named := (missing.open (isName_memberName depth).spelledBy).seal sealedBy_assign (by decide)
  have member := (named.open pathSpelled).seal sealedBy_bracket (by decide)
  have bound := (member.append (Token.sealedBy_encode name)).append sealedBy_inGroup
  exact (bound.append innerSealed).append sealedBy_closeAll

end Checks

mutual

/-- The emitted text of a field is split into the tokens of the field. -/
theorem sealedBy_emitAt (mode : UnknownKeys) : (field : Field) →
    ∀ {path : List Token} {pathText : String}, Token.SpelledBy path pathText → ∀ depth : Nat,
      Token.SealedBy (field.tokensAt mode path depth) (field.emitAt mode pathText depth)
  | .leaf type flags, _, _, pathSpelled, _ =>
      sealedBy_guarded pathSpelled flags (sealedBy_typeCheck pathSpelled type.kind)
  | .object members flags, _, _, pathSpelled, depth => by
      have checked := (sealedBy_typeCheck pathSpelled .object).append
        (sealedBy_emitMembers mode members pathSpelled (depth + 1))
      have body := checked.append (sealedBy_unknownCheck pathSpelled mode (Members.names members))
      exact sealedBy_guarded pathSpelled flags body

theorem sealedBy_emitMembers (mode : UnknownKeys) : (members : List (String × Field)) →
    ∀ {path : List Token} {pathText : String}, Token.SpelledBy path pathText → ∀ depth : Nat,
      Token.SealedBy (memberTokens mode path depth members)
        (emitMembers mode pathText depth members)
  | [], _, _, _, _ => Token.sealedBy_nil
  | (name, field) :: rest, _, _, pathSpelled, depth => by
      have inner := sealedBy_emitAt mode field (isName_memberName depth).spelledBy depth
      have first := sealedBy_memberCheck pathSpelled name field.flags.optional depth inner
      exact first.append (sealedBy_emitMembers mode rest pathSpelled depth)

end

end Field

end JsonShape
