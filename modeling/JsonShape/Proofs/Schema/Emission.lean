import JsonShape.Proofs.Program.Compilation
import JsonShape.Proofs.Schema.Formula

/-!
# Emitted texts compile to what they check

The path for which a field is emitted is given as it is written (`Access`): a name, and member
names as JSON string literals in any spelling. The name is `value` or bound by one of the `let`
groups that are written around the emitted text, where a group may hide what the groups around it
bind, `value` included. `Let.scope?` resolves the paths of all groups from the outside in.

The emitted text binds names of its own, and these may well be the names that the groups bind. The
theorem therefore speaks of any names at all.
-/

namespace JsonShape

namespace Check

/-- A JSON string literal as it is written, and the string that it stands for. -/
structure Literal where
  spelling : String
  value : String
  isLiteral : Token.IsLiteral spelling.toList value

/-- A path as it is written. -/
structure Access where
  name : String
  literals : List Literal

/-- A `let` group as it is written, without what stands inside it. -/
structure Let where
  name : String
  isName : Token.IsName name
  access : Access

namespace Access

def bracketed : List Literal → String
  | [] => ""
  | literal :: rest => "[" ++ literal.spelling ++ "]" ++ bracketed rest

def text (access : Access) : String :=
  access.name ++ bracketed access.literals

def keys (access : Access) : List String :=
  access.literals.map Literal.value

/-- The member names on the way from the root, if the first name is bound. -/
def resolve? (bindings : Bindings) (access : Access) : Option (List String) :=
  (bindings.lookup access.name).map (· ++ access.keys)

def tokens (access : Access) : List Token :=
  [Token.name access.name] ++ Token.ofKeys access.keys

theorem sealedBy_bracketed (literals : List Literal) :
    Token.SealedBy (Token.ofKeys (literals.map Literal.value)) (bracketed literals) := by
  induction literals with
  | nil => exact Token.sealedBy_nil
  | cons literal rest ih =>
      have opening : Token.SealedBy [.openBracket] "[" :=
        fun _ _ written => written.symbol .openBracket rfl trivial
      have name : Token.SealedBy [.text literal.value] literal.spelling :=
        fun _ _ written => written.literal literal.isLiteral
      have closing : Token.SealedBy [.closeBracket] "]" :=
        fun _ _ written => written.symbol .closeBracket rfl trivial
      exact ((opening.append name).append closing).append ih

theorem delimited_bracketed (literals : List Literal) (rest : List Char)
    (delimited : Token.Delimited rest) :
    Token.Delimited ((bracketed literals).toList ++ rest) := by
  cases literals with
  | nil => exact delimited
  | cons literal literals =>
      have bracket : Token.Delimits "[" := by decide
      exact (((bracket.append _).append _).append _).delimited rest

theorem spelledBy_text {access : Access} (isName : Token.IsName access.name) :
    Token.SpelledBy access.tokens access.text :=
  isName.spelledBy.append (sealedBy_bracketed access.literals)
    (delimited_bracketed access.literals)

theorem derivesPath_tokens {access : Access} {bindings : Bindings} {reached : List String}
    (resolved : access.resolve? bindings = some reached) :
    DerivesPath bindings access.tokens reached := by
  rcases Option.map_eq_some_iff.mp resolved with ⟨base, bound, rfl⟩
  exact .path access.keys bound

end Access

namespace Let

/-- The text of groups, the outermost first, around another text. -/
def enclose : List Let → String → String
  | [], body => body
  | group :: rest, body =>
      "let " ++ group.name ++ " = " ++ group.access.text ++ " in (" ++ enclose rest body ++ ")"

/-- What is bound inside of groups, if each path begins with a name that is bound where it stands.
-/
def scope? (bindings : Bindings) : List Let → Option Bindings
  | [] => some bindings
  | group :: rest =>
      match group.access.resolve? bindings with
      | some reached => scope? ((group.name, reached) :: bindings) rest
      | none => none

def Named (bindings : Bindings) : Prop :=
  ∀ bound ∈ bindings, Token.IsName bound.1

theorem isName_rootName : Token.IsName rootName :=
  ⟨⟨'v', ['a', 'l', 'u', 'e'], rfl, by decide, List.all_eq_true.mp (by decide)⟩, by decide⟩

theorem named_root : Named [(rootName, [])] := by
  intro bound member
  rw [List.mem_singleton.mp member]
  exact isName_rootName

theorem named_cons {bindings : Bindings} (named : Named bindings) (group : Let)
    (reached : List String) : Named ((group.name, reached) :: bindings) := by
  intro bound member
  rcases List.mem_cons.mp member with rfl | older
  · exact group.isName
  · exact named bound older

theorem isName_of_resolve? {bindings : Bindings} (named : Named bindings) {access : Access}
    {reached : List String} (resolved : access.resolve? bindings = some reached) :
    Token.IsName access.name := by
  rcases Option.map_eq_some_iff.mp resolved with ⟨base, bound, -⟩
  rcases List.lookup_eq_some_iff.mp bound with ⟨before, later, rfl, -⟩
  exact named (access.name, base) (by simp)

theorem named_scope? {bindings inner : Bindings} (named : Named bindings) {lets : List Let}
    (inScope : scope? bindings lets = some inner) : Named inner := by
  induction lets generalizing bindings with
  | nil =>
      cases inScope
      exact named
  | cons group rest ih =>
      rw [scope?] at inScope
      split at inScope
      · rename_i reached resolved
        exact ih (named_cons named group reached) inScope
      · cases inScope

theorem sealedBy_group {path inner : List Token} {pathText innerText : String} {name : String}
    (isName : Token.IsName name) (pathSpelled : Token.SpelledBy path pathText)
    (innerSealed : Token.SealedBy inner innerText) :
    Token.SealedBy
      ([Token.reserved .letWord] ++ [Token.name name] ++ [Token.assign] ++ path ++
        [Token.reserved .inWord, .openParen] ++ inner ++ [Token.closeParen])
      ("let " ++ name ++ " = " ++ pathText ++ " in (" ++ innerText ++ ")") := by
  have opening : Token.SealedBy [.reserved .letWord] "let " := by
    intro more rest written
    have word := written.blank.keyword .letWord (Token.delimited_cons (by decide))
    exact word
  have inWord : Token.SealedBy [.reserved .inWord, .openParen] " in (" := by
    intro more rest written
    have group := (written.symbol .openParen rfl trivial).blank
    have word := group.keyword .inWord (Token.delimited_cons (by decide))
    exact word.blank
  have bound := (opening.open isName.spelledBy).seal Field.sealedBy_assign (by decide)
  have header := (bound.open pathSpelled).seal inWord (by decide)
  exact (header.append innerSealed).append Field.sealedBy_close

/-- Groups around a text leave its meaning as it is. -/
theorem exists_enclosed {bindings inner : Bindings} (named : Named bindings) {lets : List Let}
    (inScope : scope? bindings lets = some inner) {body : List Token} {bodyText : String}
    {formula : Formula} (bodySealed : Token.SealedBy body bodyText)
    (derived : Derives .expr inner body formula) :
    ∃ tokens whole, Token.SealedBy tokens (enclose lets bodyText) ∧
      Derives .expr bindings tokens whole ∧ ∀ truth, whole.eval truth = formula.eval truth := by
  induction lets generalizing bindings with
  | nil =>
      cases inScope
      exact ⟨body, formula, bodySealed, derived, fun _ => rfl⟩
  | cons group rest ih =>
      rw [scope?] at inScope
      split at inScope
      · rename_i reached resolved
        rcases ih (named_cons named group reached) inScope with
          ⟨tokens, whole, tokensSealed, tokensDerived, sameMeaning⟩
        have isName := isName_of_resolve? named resolved
        have header := Access.derivesPath_tokens resolved
        have binding := Derives.binding group.name header tokensDerived
        refine ⟨_, .binding reached whole,
          sealedBy_group group.isName (Access.spelledBy_text isName) tokensSealed, ?_,
          sameMeaning⟩
        simpa using Field.expr_of_atom binding
      · cases inScope

end Let

end Check

open Check

/-- The program of a schema. -/
def Schema.program (mode : UnknownKeys) (schema : Schema) : Program :=
  .ofFormula (schema.emit mode) (schema.toField.formulaAt mode [])

theorem Schema.compile_emit (mode : UnknownKeys) (schema : Schema) :
    Program.compile (schema.emit mode) = .ok (schema.program mode) := by
  have written := Field.sealedBy_emitAt mode schema.toField Let.isName_rootName.spelledBy 0
  have derived := Field.derives_tokensAt mode schema.toField
    (Field.derivesPath_bound rootName [] []) 0
  exact Program.compile_of_spelledBy written.spelledBy (Field.expr_of_atom derived)

theorem Schema.evaluate_program (mode : UnknownKeys) (schema : Schema) (subject : Option Json) :
    (schema.program mode).evaluate subject = schema.accepts mode subject := by
  rw [program, Program.evaluate_ofFormula, Field.eval_formulaAt]
  rfl

/-- The emitted text of a field is compiled at any path, in whatever groups the path is written, and
the program accepts what the field accepts at the end of the path. -/
theorem exists_compile_enclose_emit (mode : UnknownKeys) (field : Field) (lets : List Let)
    (access : Access) {bindings : Bindings} {reached : List String}
    (inScope : Let.scope? [(rootName, [])] lets = some bindings)
    (resolved : access.resolve? bindings = some reached) :
    ∃ program, Program.compile (Let.enclose lets (field.emit mode access.text)) = .ok program ∧
      ∀ subject : Option Json,
        program.evaluate subject = field.accepts mode (follow subject reached) := by
  have isName := Let.isName_of_resolve? (Let.named_scope? Let.named_root inScope) resolved
  have written := Field.sealedBy_emitAt mode field (Access.spelledBy_text isName) 0
  have derived := Field.derives_tokensAt mode field (Access.derivesPath_tokens resolved) 0
  rcases Let.exists_enclosed Let.named_root inScope written (Field.expr_of_atom derived) with
    ⟨tokens, whole, sealed, isExpr, sameMeaning⟩
  refine ⟨_, Program.compile_of_spelledBy sealed.spelledBy isExpr, ?_⟩
  intro subject
  rw [Program.evaluate_ofFormula, sameMeaning, Field.eval_formulaAt]

/-- Two groups that bind `value` again and `v1`, which the emitted text binds too. -/
theorem exists_compile_enclose_emit_rebound :
    let literal (value : String) : Literal :=
      ⟨Json.Quoted.encode value, value, Token.isLiteral_encode value⟩
    let lets : List Let :=
      [⟨rootName, Let.isName_rootName, ⟨rootName, [literal "a\"b"]⟩⟩,
        ⟨"v1", Field.isName_memberName 1, ⟨rootName, []⟩⟩]
    let access : Access := ⟨"v1", [literal "k"]⟩
    let field : Field := .object [("x", .object [("y", Field.string)] {}), ("z", Field.number)] {}
    Let.scope? [(rootName, [])] lets =
        some [("v1", ["a\"b"]), (rootName, ["a\"b"]), (rootName, [])] ∧
      access.resolve? [("v1", ["a\"b"]), (rootName, ["a\"b"]), (rootName, [])] =
        some ["a\"b", "k"] ∧
      ∃ program,
        Program.compile (Let.enclose lets (field.emit .reject access.text)) = .ok program ∧
          ∀ subject : Option Json,
            program.evaluate subject = field.accepts .reject (follow subject ["a\"b", "k"]) := by
  intro literal lets access field
  have inScope : Let.scope? [(rootName, [])] lets =
      some [("v1", ["a\"b"]), (rootName, ["a\"b"]), (rootName, [])] := by decide
  have resolved : access.resolve? [("v1", ["a\"b"]), (rootName, ["a\"b"]), (rootName, [])] =
      some ["a\"b", "k"] := by decide
  exact ⟨inScope, resolved, exists_compile_enclose_emit .reject field lets access inScope resolved⟩

end JsonShape
