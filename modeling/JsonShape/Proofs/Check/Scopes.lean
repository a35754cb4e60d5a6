import Mathlib.Data.List.ReduceOption
import JsonShape.Check.Grammar

/-!
# What names stand for

`Token.unfolded` says which paths a source mentions, with all names unfolded. It goes through the
tokens with nothing but the parentheses that are open, and each parenthesis carries the binding of
the `let` in front of it. A name stands for what the innermost of them binds it to, and a binding is
gone when its parenthesis is closed.

The grammar binds names by its derivations, where no parenthesis is counted. The paths that it finds
in a source are the same (`IsExpr.mentions_eq`).
-/

namespace JsonShape

namespace Check

/-- What a path is written for. -/
inductive Use
  | test
  /-- A name is to stand for the path. -/
  | binding
  deriving Repr, DecidableEq

/-- The parentheses that are open, innermost first, and what is bound in each. -/
abbrev Enclosing := List (Option (String × List String))

/-- What names stand for inside some parentheses. The root is bound around all of them. -/
def Enclosing.bindings (enclosing : Enclosing) : Bindings :=
  enclosing.reduceOption ++ [(rootName, [])]

namespace Token

/-- The member names in brackets with which the tokens begin. -/
def leadingKeys : List Token → List String
  | .openBracket :: .text key :: .closeBracket :: rest => key :: leadingKeys rest
  | _ => []

/-- The member names on the way from the root, for a path that begins with a name. -/
def unfold (enclosing : Enclosing) (first : String) (rest : List Token) : List String :=
  (enclosing.bindings.lookup first).getD [] ++ leadingKeys rest

/-- The paths that the tokens mention, in order, with all names unfolded. What is bound in the next
parenthesis that is opened is given as well. -/
def unfolded (enclosing : Enclosing) (ahead : Option (String × List String)) :
    List Token → List (Use × List String)
  | [] => []
  | .reserved .letWord :: .name bound :: .assign :: .name first :: rest =>
      let path := unfold enclosing first rest
      (.binding, path) :: unfolded enclosing (some (bound, path)) rest
  | .name first :: rest => (.test, unfold enclosing first rest) :: unfolded enclosing ahead rest
  | .openParen :: rest => unfolded (ahead :: enclosing) none rest
  | .closeParen :: rest => unfolded enclosing.tail ahead rest
  | _ :: rest => unfolded enclosing ahead rest

section Unfolded

variable {enclosing : Enclosing} {ahead : Option (String × List String)} {rest : List Token}

theorem unfolded_ofKeys (keys : List String) :
    unfolded enclosing ahead (ofKeys keys ++ rest) = unfolded enclosing ahead rest := by
  induction keys with
  | nil => rfl
  | cons key keys ih => simpa [ofKeys, unfolded] using ih

theorem unfolded_ofListed (listed : List String) :
    unfolded enclosing ahead (ofListed listed ++ rest) = unfolded enclosing ahead rest := by
  induction listed with
  | nil => rfl
  | cons name listed ih => simpa [ofListed, unfolded] using ih

end Unfolded

/-! ### The grammar means the same -/

theorem leadingKeys_ofKeys {rest : List Token} (ends : rest.head? ≠ some .openBracket)
    (keys : List String) : leadingKeys (ofKeys keys ++ rest) = keys := by
  induction keys with
  | nil =>
      cases rest with
      | nil => rfl
      | cons head rest =>
          cases head with
          | openBracket => exact absurd rfl ends
          | _ => rfl
  | cons key keys ih => simp [ofKeys, leadingKeys, ih]

/-- A path that the grammar derives unfolds to what the grammar says that it reaches. -/
theorem exists_of_derivesPath {enclosing : Enclosing} {tokens : List Token}
    {reached : List String} (derived : DerivesPath enclosing.bindings tokens reached) :
    ∃ first keys, tokens = .name first :: ofKeys keys ∧
      ∀ rest : List Token, rest.head? ≠ some .openBracket →
        unfold enclosing first (ofKeys keys ++ rest) = reached := by
  cases derived with
  | @path name base keys bound =>
      refine ⟨name, keys, rfl, ?_⟩
      intro rest ends
      rw [unfold, bound, leadingKeys_ofKeys ends]
      rfl

theorem unfolded_of_derivesPath {enclosing : Enclosing} {tokens rest : List Token}
    {reached : List String} (derived : DerivesPath enclosing.bindings tokens reached)
    (ends : rest.head? ≠ some .openBracket) :
    unfolded enclosing none (tokens ++ rest) =
      (.test, reached) :: unfolded enclosing none rest := by
  rcases exists_of_derivesPath derived with ⟨first, keys, rfl, reaches⟩
  rw [List.cons_append, unfolded, reaches rest ends, unfolded_ofKeys]

theorem unfolded_binding {enclosing : Enclosing} {path : List Token} {reached : List String}
    (name : String) (derived : DerivesPath enclosing.bindings path reached) (rest : List Token) :
    unfolded enclosing none
        (.reserved .letWord :: .name name :: .assign :: path ++
          .reserved .inWord :: .openParen :: rest) =
      (.binding, reached) :: unfolded (some (name, reached) :: enclosing) none rest := by
  rcases exists_of_derivesPath derived with ⟨first, keys, rfl, reaches⟩
  have reaches := reaches (.reserved .inWord :: .openParen :: rest) (by simp)
  simp [unfolded, reaches, unfolded_ofKeys]

/-- What the grammar derives mentions the paths of its formula, whatever stands behind it. -/
theorem unfolded_of_derives {level : Level} {bindings : Bindings} {tokens : List Token}
    {formula : Formula} (derived : Derives level bindings tokens formula) :
    ∀ enclosing : Enclosing, enclosing.bindings = bindings →
      ∀ rest : List Token, rest.head? ≠ some .openBracket →
        (unfolded enclosing none (tokens ++ rest)).map Prod.snd =
          formula.mentions ++ (unfolded enclosing none rest).map Prod.snd := by
  induction derived with
  | ofConjunction _ ih | ofUnary _ ih | ofAtom _ ih => exact ih
  | cond _ _ _ ihTest ihTrue ihFalse =>
      intro enclosing same rest ends
      rw [List.append_assoc, List.cons_append, List.append_assoc, List.cons_append,
        ihTest enclosing same _ (by simp)]
      simp only [unfolded]
      rw [ihTrue enclosing same _ (by simp)]
      simp only [unfolded]
      rw [ihFalse enclosing same rest ends, Formula.mentions, List.append_assoc, List.append_assoc]
  | and _ _ ihLeft ihRight =>
      intro enclosing same rest ends
      rw [List.append_assoc, List.cons_append, ihLeft enclosing same _ (by simp)]
      simp only [unfolded]
      rw [ihRight enclosing same rest ends, Formula.mentions, List.append_assoc]
  | not _ ih =>
      intro enclosing same rest ends
      rw [List.cons_append]
      simp only [unfolded]
      exact ih enclosing same rest ends
  | group _ ih =>
      intro enclosing same rest ends
      rw [List.append_assoc, List.cons_append]
      simp only [unfolded]
      rw [ih (none :: enclosing) same _ (by simp)]
      simp [unfolded]
  | isTrue | isFalse =>
      intro enclosing same rest ends
      simp [unfolded, Formula.mentions]
  | @binding bindings path keys body formula name bound _ ih =>
      rintro enclosing rfl rest ends
      have walked := unfolded_binding name bound (body ++ .closeParen :: rest)
      have inner := ih (some (name, keys) :: enclosing) rfl (.closeParen :: rest) (by simp)
      simp only [unfolded] at inner
      simp only [List.cons_append, List.append_assoc, List.nil_append] at walked ⊢
      rw [walked, List.map_cons, inner]
      rfl
  | isNull tested | isAbsent tested =>
      rintro enclosing rfl rest ends
      rw [List.append_assoc, unfolded_of_derivesPath tested (by simp)]
      simp [unfolded, Formula.mentions]
  | isKind kind tested =>
      rintro enclosing rfl rest ends
      rw [List.append_assoc, List.cons_append]
      simp only [unfolded]
      rw [unfolded_of_derivesPath tested (by simp)]
      simp [unfolded, Formula.mentions]
  | has key tested =>
      rintro enclosing rfl rest ends
      simp only [List.cons_append, unfolded]
      rw [unfolded_of_derivesPath tested ends]
      simp [Formula.mentions]
  | onlyKeys listed tested =>
      rintro enclosing rfl rest ends
      have listEnds : (ofListed listed ++ .closeParen :: rest).head? ≠ some .openBracket := by
        cases listed <;> simp [ofListed]
      have inside : DerivesPath (Enclosing.bindings (none :: enclosing)) _ _ := tested
      simp only [List.cons_append, List.append_assoc, List.nil_append, unfolded]
      rw [unfolded_of_derivesPath inside listEnds, unfolded_ofListed]
      simp [unfolded, Formula.mentions]

end Token

/-- The paths of a formula are what the tokens from which it is derived mention. -/
theorem IsExpr.mentions_eq {tokens : List Token} {formula : Formula}
    (derived : IsExpr tokens formula) :
    formula.mentions = (Token.unfolded [] none tokens).map Prod.snd := by
  have walked := Token.unfolded_of_derives derived [] rfl [] (by simp)
  rw [List.append_nil] at walked
  exact (walked.trans (List.append_nil _)).symm

/-- The path of a binding begins with the outer binding of the same name, which counts again when
the inner one has ended. -/
example :
    Token.unfolded [some ("v", ["a"])] none
      [.reserved .letWord, .name "v", .assign, .name "v", .openBracket, .text "b", .closeBracket,
        .reserved .inWord, .openParen, .name "v", .same, .reserved .nullWord, .closeParen, .and,
        .name "v", .same, .reserved .nullWord] =
      [(.binding, ["a", "b"]), (.test, ["a", "b"]), (.test, ["a"])] := by
  decide

end Check

end JsonShape
