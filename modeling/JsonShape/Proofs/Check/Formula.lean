import JsonShape.Check.Grammar
import JsonShape.Proofs.Check.Slots

/-!
# Formulas with numbered paths

Numbering the paths of a formula gives an expression with the same truth value. A conjunction
whose left part is a conjunction becomes one conjunction of more parts, as `Expr.conjoin` writes
it, and bindings leave no trace.
-/

namespace JsonShape

namespace Check

namespace Expr

theorem evalAll_append (truth : Nat → Test → Bool) (first second : List Expr) :
    evalAll truth (first ++ second) = (evalAll truth first && evalAll truth second) := by
  induction first with
  | nil => simp [evalAll]
  | cons part rest ih => simp [evalAll, ih, Bool.and_assoc]

@[simp]
theorem eval_conjoin (truth : Nat → Test → Bool) (left right : Expr) :
    (left.conjoin right).eval truth = (left.eval truth && right.eval truth) := by
  cases left with
  | and first rest => simp [conjoin, eval, evalAll_append, evalAll, Bool.and_assoc]
  | _ => simp [conjoin, eval, evalAll]

theorem testedAll_append (first second : List Expr) :
    testedAll (first ++ second) = testedAll first ++ testedAll second := by
  induction first with
  | nil => rfl
  | cons part rest ih => simp [testedAll, ih]

@[simp]
theorem tested_conjoin (left right : Expr) :
    (left.conjoin right).tested = left.tested ++ right.tested := by
  cases left with
  | and first rest => simp [conjoin, tested, testedAll_append, testedAll]
  | _ => simp [conjoin, tested, testedAll]

end Expr

namespace Formula

/-- The expression that a formula becomes when its paths are numbered. -/
def toExpr (number : List String → Nat) : Formula → Expr
  | .constant value => .constant value
  | .test path asked => .test (number path) asked
  | .not operand => .not (toExpr number operand)
  | .and left right => (toExpr number left).conjoin (toExpr number right)
  | .cond condition consequent alternative =>
      .cond (toExpr number condition) (toExpr number consequent) (toExpr number alternative)
  | .binding _ body => toExpr number body

/-- Only the numbers of the paths that a formula mentions matter. -/
theorem toExpr_congr {formula : Formula} {first second : List String → Nat}
    (agree : ∀ path ∈ formula.mentions, first path = second path) :
    formula.toExpr first = formula.toExpr second := by
  induction formula with
  | constant value => rfl
  | test path asked => rw [toExpr, toExpr, agree path (by simp [mentions])]
  | not operand ih => rw [toExpr, toExpr, ih agree]
  | and left right ihLeft ihRight =>
      simp only [mentions, List.mem_append] at agree
      rw [toExpr, toExpr, ihLeft fun path member => agree path (.inl member),
        ihRight fun path member => agree path (.inr member)]
  | cond condition consequent alternative ihCondition ihConsequent ihAlternative =>
      simp only [mentions, List.mem_append] at agree
      rw [toExpr, toExpr, ihCondition fun path member => agree path (.inl (.inl member)),
        ihConsequent fun path member => agree path (.inl (.inr member)),
        ihAlternative fun path member => agree path (.inr member)]
  | binding path body ih =>
      simp only [mentions, List.mem_cons] at agree
      exact ih fun path member => agree path (.inr member)

/-- Only the tests of the paths that a formula mentions matter. -/
theorem eval_congr {formula : Formula} {first second : List String → Test → Bool}
    (agree : ∀ path ∈ formula.mentions, first path = second path) :
    formula.eval first = formula.eval second := by
  induction formula with
  | constant value => rfl
  | test path asked => rw [eval, eval, agree path (by simp [mentions])]
  | not operand ih => rw [eval, eval, ih agree]
  | and left right ihLeft ihRight =>
      simp only [mentions, List.mem_append] at agree
      rw [eval, eval, ihLeft fun path member => agree path (.inl member),
        ihRight fun path member => agree path (.inr member)]
  | cond condition consequent alternative ihCondition ihConsequent ihAlternative =>
      simp only [mentions, List.mem_append] at agree
      rw [eval, eval, ihCondition fun path member => agree path (.inl (.inl member)),
        ihConsequent fun path member => agree path (.inl (.inr member)),
        ihAlternative fun path member => agree path (.inr member)]
  | binding path body ih =>
      simp only [mentions, List.mem_cons] at agree
      exact ih fun path member => agree path (.inr member)

/-- The truth value of a test of what a path reaches from the value under test. -/
def holdsFor (subject : Option Json) (path : List String) (test : Test) : Bool :=
  test.holds (follow subject path)

/-- Numbering keeps truth values. -/
theorem eval_toExpr (number : List String → Nat) (truth : Nat → Test → Bool)
    (formula : Formula) :
    (formula.toExpr number).eval truth = formula.eval fun path => truth (number path) := by
  induction formula with
  | constant value => rfl
  | test path asked => rfl
  | not operand ih => rw [toExpr, Expr.eval, ih, eval]
  | and left right ihLeft ihRight => rw [toExpr, Expr.eval_conjoin, ihLeft, ihRight, eval]
  | cond condition consequent alternative ihCondition ihConsequent ihAlternative =>
      rw [toExpr, Expr.eval, ihCondition, ihConsequent, ihAlternative, eval]
  | binding path body ih => rw [toExpr, ih, eval]

/-- The slots that a numbered formula tests are numbers of paths that the formula mentions. -/
theorem exists_mention_of_tested {formula : Formula} {number : List String → Nat} {slot : Nat}
    (tested : slot ∈ (formula.toExpr number).tested) :
    ∃ path ∈ formula.mentions, number path = slot := by
  induction formula with
  | constant value => simp [toExpr, Expr.tested] at tested
  | test path asked =>
      simp only [toExpr, Expr.tested, List.mem_singleton] at tested
      exact ⟨path, by simp [mentions], tested.symm⟩
  | not operand ih => exact ih tested
  | and left right ihLeft ihRight =>
      simp only [toExpr, Expr.tested_conjoin, List.mem_append] at tested
      simp only [mentions, List.mem_append]
      rcases tested with inLeft | inRight
      · rcases ihLeft inLeft with ⟨path, member, numbered⟩
        exact ⟨path, .inl member, numbered⟩
      · rcases ihRight inRight with ⟨path, member, numbered⟩
        exact ⟨path, .inr member, numbered⟩
  | cond condition consequent alternative ihCondition ihConsequent ihAlternative =>
      simp only [toExpr, Expr.tested, List.mem_append] at tested
      simp only [mentions, List.mem_append]
      rcases tested with (inCondition | inConsequent) | inAlternative
      · rcases ihCondition inCondition with ⟨path, member, numbered⟩
        exact ⟨path, .inl (.inl member), numbered⟩
      · rcases ihConsequent inConsequent with ⟨path, member, numbered⟩
        exact ⟨path, .inl (.inr member), numbered⟩
      · rcases ihAlternative inAlternative with ⟨path, member, numbered⟩
        exact ⟨path, .inr member, numbered⟩
  | binding path body ih =>
      rcases ih tested with ⟨other, member, numbered⟩
      exact ⟨other, by simp [mentions, member], numbered⟩

end Formula

end Check

end JsonShape
