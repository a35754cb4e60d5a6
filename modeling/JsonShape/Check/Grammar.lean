import JsonShape.Check.Expr
import JsonShape.Check.Token

/-!
# The grammar of check expressions

```text
expr        := conjunction ("?" expr ":" expr)?
conjunction := unary ("&&" unary)*
unary       := "!" unary | atom
atom        := "(" expr ")" | "true" | "false" | "let" NAME "=" path "in" "(" expr ")"
             | path "===" ("null" | "undefined") | "typeof" path "===" STRING
             | STRING "in" path | "onlyKeys" "(" path ("," STRING)* ")"
path        := NAME ("[" STRING "]")*
```

A NAME is a word that is no keyword; `Token.ofWord` tells the two apart. A path begins with `value`
or with a name that an enclosing `let` binds, and the innermost binding counts.

`Derives` says which tokens the grammar derives and which `Formula` they mean. A formula names the
value of a test by all member names on the way from the root, so that it does not depend on any
binding.
-/

namespace JsonShape

namespace Check

/-- The meaning of a check expression. -/
inductive Formula
  | constant (value : Bool)
  | test (path : List String) (test : Test)
  | not (operand : Formula)
  | and (left right : Formula)
  | cond (condition consequent alternative : Formula)
  /-- A path that is bound to a name, and the formula in which it is bound. -/
  | binding (path : List String) (body : Formula)
  deriving Repr

namespace Formula

/-- The truth value of a formula for given truth values of its tests. -/
def eval (truth : List String → Test → Bool) : Formula → Bool
  | .constant value => value
  | .test path asked => truth path asked
  | .not operand => !eval truth operand
  | .and left right => eval truth left && eval truth right
  | .cond condition consequent alternative =>
      if eval truth condition then eval truth consequent else eval truth alternative
  | .binding _ body => eval truth body

/-- The paths of a formula in the order in which they are written. -/
def mentions : Formula → List (List String)
  | .constant _ => []
  | .test path _ => [path]
  | .not operand => mentions operand
  | .and left right => mentions left ++ mentions right
  | .cond condition consequent alternative =>
      mentions condition ++ mentions consequent ++ mentions alternative
  | .binding path body => path :: mentions body

end Formula

/-- The tokens of member names behind the first name of a path. -/
def Token.ofKeys : List String → List Token
  | [] => []
  | key :: rest => .openBracket :: .text key :: .closeBracket :: ofKeys rest

/-- The tokens of the names that `onlyKeys` lists. -/
def Token.ofListed : List String → List Token
  | [] => []
  | key :: rest => .comma :: .text key :: ofListed rest

/-- The names that are bound, innermost first, with the member names on the way from the root. -/
abbrev Bindings := List (String × List String)

/-- The tokens of a path, and the member names on the way from the root. -/
inductive DerivesPath (bindings : Bindings) : List Token → List String → Prop
  | path {name : String} {base : List String} (keys : List String)
      (bound : bindings.lookup name = some base) :
      DerivesPath bindings (.name name :: Token.ofKeys keys) (base ++ keys)

/-- The levels of the grammar, from the loosest to the tightest. -/
inductive Level
  | expr
  | conjunction
  | unary
  | atom
  deriving Repr, DecidableEq

/-- The tokens that the grammar derives on a level, and what they mean. -/
inductive Derives : Level → Bindings → List Token → Formula → Prop
  | ofConjunction {bindings tokens formula}
      (inner : Derives .conjunction bindings tokens formula) :
      Derives .expr bindings tokens formula
  | cond {bindings condition consequent alternative first second third}
      (test : Derives .conjunction bindings condition first)
      (whenTrue : Derives .expr bindings consequent second)
      (whenFalse : Derives .expr bindings alternative third) :
      Derives .expr bindings
        (condition ++ .question :: consequent ++ .colon :: alternative) (.cond first second third)
  | ofUnary {bindings tokens formula} (inner : Derives .unary bindings tokens formula) :
      Derives .conjunction bindings tokens formula
  | and {bindings left right first second}
      (before : Derives .conjunction bindings left first)
      (last : Derives .unary bindings right second) :
      Derives .conjunction bindings (left ++ .and :: right) (.and first second)
  | ofAtom {bindings tokens formula} (inner : Derives .atom bindings tokens formula) :
      Derives .unary bindings tokens formula
  | not {bindings tokens formula} (inner : Derives .unary bindings tokens formula) :
      Derives .unary bindings (.not :: tokens) (.not formula)
  | group {bindings tokens formula} (inner : Derives .expr bindings tokens formula) :
      Derives .atom bindings (.openParen :: tokens ++ [.closeParen]) formula
  | isTrue {bindings} : Derives .atom bindings [.reserved .trueWord] (.constant true)
  | isFalse {bindings} : Derives .atom bindings [.reserved .falseWord] (.constant false)
  | binding {bindings path keys body formula} (name : String)
      (bound : DerivesPath bindings path keys)
      (inner : Derives .expr ((name, keys) :: bindings) body formula) :
      Derives .atom bindings
        (.reserved .letWord :: .name name :: .assign :: path ++
          .reserved .inWord :: .openParen :: body ++ [.closeParen])
        (.binding keys formula)
  | isNull {bindings path keys} (tested : DerivesPath bindings path keys) :
      Derives .atom bindings (path ++ [.same, .reserved .nullWord]) (.test keys .isNull)
  | isAbsent {bindings path keys} (tested : DerivesPath bindings path keys) :
      Derives .atom bindings (path ++ [.same, .reserved .undefinedWord]) (.test keys .isAbsent)
  | isKind {bindings path keys} (kind : Json.Kind) (tested : DerivesPath bindings path keys) :
      Derives .atom bindings
        (.reserved .typeofWord :: path ++ [.same, .text kind.spelling])
        (.test keys (.isKind kind))
  | has {bindings path keys} (key : String) (tested : DerivesPath bindings path keys) :
      Derives .atom bindings (.text key :: .reserved .inWord :: path) (.test keys (.has key))
  | onlyKeys {bindings path keys} (listed : List String)
      (tested : DerivesPath bindings path keys) :
      Derives .atom bindings
        (.reserved .onlyKeysWord :: .openParen :: path ++ Token.ofListed listed ++ [.closeParen])
        (.test keys (.onlyKeys (Members.sortedNames listed)))

/-- The meaning of the tokens of a whole check expression. -/
def IsExpr (tokens : List Token) (formula : Formula) : Prop :=
  Derives .expr [(rootName, [])] tokens formula

end Check

end JsonShape
