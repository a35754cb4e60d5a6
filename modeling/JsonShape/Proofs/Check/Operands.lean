import JsonShape.Proofs.Check.Completeness

/-!
# The stacks of the parser

An operator that waits has its first operands on the stack: one for `&&` and for `?`, two for
`? … :`. `State.Fits` says that there are no other operands, apart from the one that has just been
completed, and that the names in scope are the root and one for each open binding. Every step keeps
it (`State.Fits.step`), and it is why an operator always finds its operands when it is applied:
`Pending.apply` would lose them without an error.

`stages` lists the stacks that `reduce` goes through, so that this can be said of every operator
that it applies and not only of its result.
-/

namespace JsonShape

namespace Check

namespace Pending

/-- How many operands an operator takes off the stack when it is applied. -/
def arity : Pending → Nat
  | .not => 1
  | .and => 2
  | .colon => 3
  | .question | .group | .binding => 0

/-- An operator that has its operands leaves one expression in their place. -/
theorem exists_apply_eq {top : Pending} {operands : List Expr} (complete : top.isComplete = true)
    (enough : top.arity ≤ operands.length) :
    ∃ expr, top.apply operands = expr :: operands.drop top.arity := by
  cases top with
  | not =>
      rcases operands with _ | ⟨operand, operands⟩
      · simp [arity] at enough
      · exact ⟨.not operand, rfl⟩
  | and =>
      rcases operands with _ | ⟨right, _ | ⟨left, operands⟩⟩
      · simp [arity] at enough
      · simp [arity] at enough
      · exact ⟨left.conjoin right, rfl⟩
  | colon =>
      rcases operands with _ | ⟨alternative, _ | ⟨consequent, _ | ⟨condition, operands⟩⟩⟩
      · simp [arity] at enough
      · simp [arity] at enough
      · simp [arity] at enough
      · exact ⟨.cond condition consequent alternative, rfl⟩
  | question | group | binding => cases complete

end Pending

namespace Parser

/-- How many operands stand below operators that wait. -/
def held (pending : List Pending) : Nat :=
  pending.count .and + pending.count .question + 2 * pending.count .colon

@[simp]
theorem held_nil : held [] = 0 := rfl

/-- An operator that is complete takes what is held for it and the operand behind it. -/
theorem held_cons_of_isComplete {top : Pending} (complete : top.isComplete = true)
    (pending : List Pending) : held (top :: pending) + 1 = held pending + top.arity := by
  cases top with
  | not | and | colon => simp [held, Pending.arity] <;> omega
  | question | group | binding => cases complete

/-! ### Applying operators -/

/-- The stacks that `reduce` goes through, from those that are given to those that it leaves. -/
def stages (condition : Pending → Bool) :
    List Pending → List Expr → List (List Pending × List Expr)
  | [], operands => [([], operands)]
  | top :: pending, operands =>
      (top :: pending, operands) ::
        if condition top then stages condition pending (top.apply operands) else []

theorem getLast?_stages (condition : Pending → Bool) (pending : List Pending)
    (operands : List Expr) :
    (stages condition pending operands).getLast? = some (reduce condition pending operands) := by
  induction pending generalizing operands with
  | nil => rfl
  | cons top pending ih =>
      cases applied : condition top with
      | false => simp [stages, reduce, applied]
      | true =>
          rw [stages, if_pos applied, List.getLast?_cons, ih, reduce_cons applied]
          rfl

section Reduce

variable {condition : Pending → Bool} {pending : List Pending} {operands : List Expr}

/-- A complete operator has its operands, and the operands still fit when it is applied. -/
theorem fits_apply {top : Pending} (complete : top.isComplete = true)
    (fits : operands.length = held (top :: pending) + 1) :
    top.arity ≤ operands.length ∧ (top.apply operands).length = held pending + 1 := by
  have counted := held_cons_of_isComplete complete pending
  have enough : top.arity ≤ operands.length := by omega
  rcases Pending.exists_apply_eq complete enough with ⟨expr, applied⟩
  refine ⟨enough, ?_⟩
  rw [applied, List.length_cons, List.length_drop]
  omega

/-- The operands fit at every stage. -/
theorem length_of_mem_stages
    (operatorsOnly : ∀ top, condition top = true → top.isComplete = true)
    (fits : operands.length = held pending + 1) :
    ∀ stage ∈ stages condition pending operands, stage.2.length = held stage.1 + 1 := by
  induction pending generalizing operands with
  | nil =>
      intro stage member
      rw [stages, List.mem_singleton] at member
      rw [member]
      exact fits
  | cons top pending ih =>
      intro stage member
      rw [stages, List.mem_cons] at member
      rcases member with rfl | later
      · exact fits
      · split at later
        · rename_i applied
          exact ih (fits_apply (operatorsOnly top applied) fits).2 stage later
        · cases later

theorem length_reduce (operatorsOnly : ∀ top, condition top = true → top.isComplete = true)
    (fits : operands.length = held pending + 1) :
    (reduce condition pending operands).2.length =
      held (reduce condition pending operands).1 + 1 :=
  length_of_mem_stages operatorsOnly fits _
    (List.mem_of_getLast? (getLast?_stages condition pending operands))

/-- The operators that are taken off the stack are those that are applied. -/
theorem exists_applied (condition : Pending → Bool) (pending : List Pending)
    (operands : List Expr) :
    ∃ applied, pending = applied ++ (reduce condition pending operands).1 ∧
      ∀ top ∈ applied, condition top = true := by
  induction pending generalizing operands with
  | nil => exact ⟨[], rfl, by simp⟩
  | cons top pending ih =>
      cases holds : condition top with
      | false =>
          rw [reduce_of_not holds]
          exact ⟨[], rfl, by simp⟩
      | true =>
          rcases ih (top.apply operands) with ⟨applied, split, allApplied⟩
          refine ⟨top :: applied, ?_, by simpa [holds] using allApplied⟩
          rw [reduce_cons holds, List.cons_append, ← split]

theorem count_reduce {entry : Pending} (stays : condition entry = false) (pending : List Pending)
    (operands : List Expr) :
    (reduce condition pending operands).1.count entry = pending.count entry := by
  rcases exists_applied condition pending operands with ⟨applied, split, allApplied⟩
  have absent : entry ∉ applied := by
    intro member
    rw [allApplied entry member] at stays
    cases stays
  have counted := congrArg (List.count entry) split
  rw [List.count_append, List.count_eq_zero.mpr absent, Nat.zero_add] at counted
  exact counted.symm

end Reduce

/-- The stacks of a state fit together. -/
structure State.Fits (state : State) : Prop where
  /-- Every operand is held by an operator that waits, or has just been completed. -/
  operands : state.operands.length = held state.pending + if state.phase = .operator then 1 else 0
  /-- Every name but the root is bound by a group that is still open. -/
  scope : state.scope.length = state.pending.count .binding + 1
  root : state.scope.getLast? = some (rootName, 0)

namespace State.Fits

variable {state next : State} {head : Located} {tail rest : List Located}

theorem initial : State.initial.Fits :=
  ⟨rfl, rfl, rfl⟩

theorem length_operands (fits : state.Fits) (phase : state.phase = .operator) :
    state.operands.length = held state.pending + 1 := by
  rw [fits.operands, if_pos phase]

/-! ### Steps -/

theorem operandStep (fits : state.Fits) (phase : state.phase = .operand)
    (read : Parser.operandStep state head tail = .ok (next, rest)) : next.Fits := by
  have counted := fits.operands
  simp only [phase, reduceCtorEq, if_false, Nat.add_zero] at counted
  simp only [Parser.operandStep] at read
  split at read
  · cases read
    exact ⟨by simpa [phase, held] using counted, by simpa using fits.scope, fits.root⟩
  · cases read
    exact ⟨by simpa [phase, held] using counted, by simpa using fits.scope, fits.root⟩
  · split at read
    · cases read
    · cases read
      refine ⟨by simpa [phase, held] using counted, by simp [fits.scope], ?_⟩
      rw [List.getLast?_cons, fits.root]
      rfl
  · split at read
    · cases read
    · cases read
      exact ⟨by simp [counted], fits.scope, fits.root⟩

theorem pushLoose (fits : state.Fits) (phase : state.phase = .operator) {operator : Pending}
    (holdsOne : ∀ pending, held (operator :: pending) = held pending + 1)
    (bindsNothing : operator ≠ .binding) : (Parser.pushLoose state operator).Fits := by
  refine ⟨?_, ?_, fits.root⟩
  · change (reduce _ _ _).2.length = held (operator :: (reduce _ _ _).1) + 0
    rw [length_reduce isComplete_of_isLogical (fits.length_operands phase), holdsOne]
  · change state.scope.length = List.count .binding (operator :: (reduce _ _ _).1) + 1
    rw [List.count_cons_of_ne bindsNothing, count_reduce rfl, fits.scope]

theorem operatorStep (fits : state.Fits) (phase : state.phase = .operator)
    (read : Parser.operatorStep state head = .ok next) : next.Fits := by
  have counted := length_reduce (fun _ complete => complete) (fits.length_operands phase)
  have marked : (reduce Pending.isComplete state.pending state.operands).1.count .binding =
      state.pending.count .binding := count_reduce rfl _ _
  have bound := fits.scope
  rw [← marked] at bound
  simp only [Parser.operatorStep] at read
  split at read
  · cases read
    exact fits.pushLoose phase (fun pending => by simp [held]; omega) (by decide)
  · cases read
    exact fits.pushLoose phase (fun pending => by simp [held]; omega) (by decide)
  · split at read
    · rename_i pending operands stacked
      cases read
      rw [stacked] at counted bound
      exact ⟨by simp [counted, held]; omega, by simpa using bound, fits.root⟩
    · cases read
  · split at read
    · rename_i pending operands stacked
      cases read
      rw [stacked] at counted bound
      exact ⟨by simpa [phase, held] using counted, by simpa using bound, fits.root⟩
    · rename_i pending operands stacked
      cases read
      rw [stacked] at counted bound
      simp only [List.count_cons_self] at bound
      refine ⟨by simpa [phase, held] using counted, by simp [bound], ?_⟩
      -- the root is below the name that goes out of scope
      rcases names : state.scope with _ | ⟨innermost, _ | ⟨outer, others⟩⟩
      · simp [names] at bound
      · simp [names] at bound
      · rw [← fits.root, names]
        rfl
    · cases read
  · cases read

/-- Every step keeps that the stacks fit. -/
theorem step (fits : state.Fits) (read : Parser.step state head tail = .ok (next, rest)) :
    next.Fits := by
  simp only [Parser.step] at read
  split at read
  · rename_i phase
    exact fits.operandStep phase read
  · rename_i phase
    split at read
    · cases read
    · rename_i operatorRead
      cases read
      exact fits.operatorStep phase operatorRead

/-- Once no operator waits, exactly one operand is left. -/
theorem exists_finish (fits : state.Fits) (phase : state.phase = .operator)
    (closed : (reduce Pending.isComplete state.pending state.operands).1 = []) :
    ∃ expr, finish state = .ok (expr, state.slots) := by
  have counted := length_reduce (fun _ complete => complete) (fits.length_operands phase)
  rw [closed, held_nil] at counted
  rcases List.length_eq_one_iff.mp counted with ⟨expr, single⟩
  have stacked : reduce Pending.isComplete state.pending state.operands = ([], [expr]) :=
    Prod.ext closed single
  exact ⟨expr, by simp [finish, phase, stacked]⟩

end State.Fits

/-! ### Runs -/

/-- The states between two tokens that the parser comes to when it reads some tokens, and the tokens
that are left then. -/
inductive Reaches (tokens : List Located) : State → List Located → Prop
  | start : Reaches tokens .initial tokens
  | step {state next : State} {head : Located} {tail rest : List Located}
      (reached : Reaches tokens state (head :: tail))
      (read : Parser.step state head tail = .ok (next, rest)) : Reaches tokens next rest

namespace Reaches

variable {tokens rest : List Located} {state : State}

theorem fits (reached : Reaches tokens state rest) : state.Fits := by
  induction reached with
  | start => exact .initial
  | step _ read ih => exact ih.step read

theorem run_eq (reached : Reaches tokens state rest) : Expr.ofTokens tokens = run state rest := by
  induction reached with
  | start => rfl
  | step _ read ih => rw [ih, run_of_step read]

end Reaches

/-- Wherever the parser is between two tokens, its stacks fit: the operands are those that are held
by waiting operators and the one that has just been completed, and the root is below the names that
are bound. So an operator that is applied has all its operands and leaves one expression in their
place, and when none waits at the end of the tokens, the one operand that is left is the result. -/
theorem stacks_fit_of_reaches {tokens rest : List Located} {state : State}
    (reached : Reaches tokens state rest) :
    Expr.ofTokens tokens = run state rest ∧ state.Fits ∧
      (state.phase = .operator →
        (∀ condition ∈ [Pending.isLogical, Pending.isComplete],
          ∀ stage ∈ stages condition state.pending state.operands,
            stage.2.length = held stage.1 + 1 ∧
            ∀ top ∈ stage.1.head?, condition top = true →
              top.arity ≤ stage.2.length ∧
                ∃ expr, top.apply stage.2 = expr :: stage.2.drop top.arity) ∧
        ((reduce Pending.isComplete state.pending state.operands).1 = [] →
          ∃ expr, finish state = .ok (expr, state.slots))) := by
  refine ⟨reached.run_eq, reached.fits, fun phase => ⟨?_, reached.fits.exists_finish phase⟩⟩
  intro condition member
  have operatorsOnly : ∀ top, condition top = true → top.isComplete = true := by
    simp only [List.mem_cons, List.not_mem_nil, or_false] at member
    rcases member with rfl | rfl
    · exact isComplete_of_isLogical
    · exact fun _ complete => complete
  rintro ⟨pending, operands⟩ isStage
  have counted := length_of_mem_stages operatorsOnly (reached.fits.length_operands phase) _ isStage
  refine ⟨counted, ?_⟩
  rintro top first applied
  rcases List.head?_eq_some_iff.mp first with ⟨others, rfl⟩
  have complete := operatorsOnly top applied
  have enough := (fits_apply complete counted).1
  exact ⟨enough, Pending.exists_apply_eq complete enough⟩

/-- Behind `true ? let v = value in (true ? false : true && !false`, where `)` follows, all kinds of
operators wait but a group without a binding. Behind `) : true`, the tokens end. -/
theorem stacks_fit_inside_binding :
    let before : List Located := [⟨0, .reserved .trueWord⟩, ⟨5, .question⟩,
      ⟨7, .reserved .letWord⟩, ⟨11, .name "v"⟩, ⟨13, .assign⟩, ⟨15, .name "value"⟩,
      ⟨21, .reserved .inWord⟩, ⟨24, .openParen⟩, ⟨25, .reserved .trueWord⟩, ⟨30, .question⟩,
      ⟨32, .reserved .falseWord⟩, ⟨38, .colon⟩, ⟨40, .reserved .trueWord⟩, ⟨45, .and⟩, ⟨48, .not⟩,
      ⟨49, .reserved .falseWord⟩]
    let rest : List Located := [⟨54, .closeParen⟩, ⟨56, .colon⟩, ⟨58, .reserved .trueWord⟩]
    let state : State := ⟨.operator,
      [.constant false, .constant true, .constant false, .constant true, .constant true],
      [.not, .and, .colon, .binding, .question], [("v", 0), ("value", 0)], #[.root]⟩
    Reaches (before ++ rest) state rest ∧ state.phase = .operator ∧ state.Fits ∧
      (∀ condition ∈ [Pending.isLogical, Pending.isComplete],
        ∀ stage ∈ stages condition state.pending state.operands,
          stage.2.length = held stage.1 + 1 ∧
          ∀ top ∈ stage.1.head?, condition top = true →
            top.arity ≤ stage.2.length ∧
              ∃ expr, top.apply stage.2 = expr :: stage.2.drop top.arity) ∧
      ∃ last, Reaches (before ++ rest) last [] ∧ last.Fits ∧
        ∃ expr, finish last = .ok (expr, last.slots) := by
  intro before rest state
  have inBinding : Reaches (before ++ rest)
      ⟨.operand, [.constant true], [.binding, .question], [("v", 0), ("value", 0)], #[.root]⟩
      ((before ++ rest).drop 8) := by
    refine ((Reaches.start.step rfl).step rfl).step ?_
    simp [before, rest, step, operandStep, pushLoose, reduce, binding, boundName, expect, path,
      pathFrom, resolve, State.initial, rootName, keys, Slot.internPath]
  have reached : Reaches (before ++ rest) state rest :=
    (((((((inBinding.step rfl).step rfl).step rfl).step rfl).step rfl).step rfl).step rfl).step rfl
  have atEnd := ((reached.step rfl).step rfl).step rfl
  rcases stacks_fit_of_reaches reached with ⟨-, fits, applies⟩
  rcases stacks_fit_of_reaches atEnd with ⟨-, fitsAtEnd, appliesAtEnd⟩
  exact ⟨reached, rfl, fits, (applies rfl).1, _, atEnd, fitsAtEnd, (appliesAtEnd rfl).2 rfl⟩

end Parser

end Check

end JsonShape
