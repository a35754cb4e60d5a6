import JsonShape.Program.Compilation
import JsonShape.Proofs.Check.Completeness
import JsonShape.Proofs.Check.Lexing
import JsonShape.Proofs.Program.Meaning

/-!
# Compiling what the grammar derives

A source whose tokens derive a formula is compiled, and the program computes the formula: it tests
a path in the slot that spells it.
-/

namespace JsonShape

open Check

/-- What a given source is compiled to, or refused for, can be evaluated. -/
instance decidableEqExcept {Failure Value : Type} [DecidableEq Failure] [DecidableEq Value] :
    DecidableEq (Except Failure Value)
  | .ok first, .ok second => decidable_of_iff (first = second) (by rw [Except.ok.injEq])
  | .error first, .error second => decidable_of_iff (first = second) (by rw [Except.error.injEq])
  | .ok _, .error _ | .error _, .ok _ => isFalse nofun

namespace Program

variable {source : String} {formula : Formula}

def ofFormula (source : String) (formula : Formula) : Program :=
  let slots := Slot.internPaths #[.root] formula.mentions
  ofExpr source (formula.toExpr (Slot.number slots)) slots

theorem interned_ofFormula (source : String) (formula : Formula) :
    Slot.Interned (ofFormula source formula).slots :=
  (Slot.internPaths_spec .initial formula.mentions).1

/-- The slots that the expression of a formula tests lie inside the table of its paths. -/
theorem lt_of_tested_toExpr {formula : Formula} {slot : Nat} :
    let slots := Slot.internPaths #[.root] formula.mentions
    slot ∈ (formula.toExpr (Slot.number slots)).tested → slot < slots.size := by
  intro slots tested
  rcases Slot.internPaths_spec .initial formula.mentions with ⟨interned, -, known⟩
  rcases Formula.exists_mention_of_tested tested with ⟨path, member, rfl⟩
  exact (known path member).number_lt interned

theorem evaluate_ofFormula (source : String) (formula : Formula) (subject : Option Json) :
    (ofFormula source formula).evaluate subject = formula.eval (Formula.holdsFor subject) := by
  rcases Slot.internPaths_spec .initial formula.mentions with ⟨interned, -, known⟩
  rw [ofFormula, evaluate_ofExpr source interned.ordered (fun _ => lt_of_tested_toExpr),
    Formula.eval_toExpr]
  apply Formula.eval_congr
  intro path member
  funext test
  have spelled := (known path member).path_number interned
  exact congrArg (fun keys => test.holds (follow subject keys)) spelled

theorem compile_of_isExpr {tokens : List Located} (scanned : Token.scan source.toList = .ok tokens)
    (derived : IsExpr (tokens.map Located.token) formula) :
    compile source = .ok (ofFormula source formula) := by
  rw [compile, scanned]
  simp only [Expr.ofTokens_of_isExpr derived]
  rfl

/-- A program that is compiled is the program of a formula that the grammar derives. -/
theorem exists_isExpr_of_compile {program : Program} (compiled : compile source = .ok program) :
    ∃ tokens formula, Token.scan source.toList = .ok tokens ∧
      IsExpr (tokens.map Located.token) formula ∧ program = ofFormula source formula := by
  simp only [compile] at compiled
  split at compiled
  · cases compiled
  · rename_i tokens scanned
    split at compiled
    · cases compiled
    · rename_i read
      rcases Expr.ofTokens_eq_ok_iff.mp read with ⟨formula, derived, same⟩
      cases same
      cases compiled
      exact ⟨tokens, formula, scanned, derived, rfl⟩

theorem compile_of_spelledBy {tokens : List Token} (spelled : Token.SpelledBy tokens source)
    (derived : IsExpr tokens formula) : compile source = .ok (ofFormula source formula) := by
  rcases spelled.scan with ⟨located, rfl, scanned⟩
  exact compile_of_isExpr scanned derived

end Program

end JsonShape
