import JsonShape.Proofs.Check.Reading

/-!
# What is read is derived

`Opens` describes how the parser can get to a point where an operand must follow: which tokens it
has passed when given operators wait, and which names are bound there. What has been read behind
the last waiting operator is complete on a level of the grammar (`Completes`), and applying
operators makes more of the tokens complete on a looser level. An operator is put on the stack
only when everything that binds tighter has been applied, so that below `&&` and `?` no operator
waits that binds tighter than they do (`Loose`).

Only the waiting operators matter for this, not the operands that have been built.
-/

namespace JsonShape

namespace Check

namespace Parser

/-- The last waiting operator binds no tighter than the condition of a conditional. -/
def Loose (pending : List Pending) : Prop :=
  ∀ top ∈ pending.head?, top.isLogical = false

/-- The tokens that lead to an operand while operators wait, latest first, and the names that are
bound for that operand. -/
inductive Opens : Bindings → List Pending → List Token → Prop
  | start : Opens [(rootName, [])] [] []
  | not {bindings pending before} (opened : Opens bindings pending before) :
      Opens bindings (.not :: pending) (before ++ [.not])
  | and {bindings pending before left formula} (opened : Opens bindings pending before)
      (loose : Loose pending) (derived : Derives .conjunction bindings left formula) :
      Opens bindings (.and :: pending) (before ++ left ++ [.and])
  | question {bindings pending before condition formula} (opened : Opens bindings pending before)
      (loose : Loose pending) (derived : Derives .conjunction bindings condition formula) :
      Opens bindings (.question :: pending) (before ++ condition ++ [.question])
  | colon {bindings pending before consequent formula}
      (opened : Opens bindings (.question :: pending) before)
      (derived : Derives .expr bindings consequent formula) :
      Opens bindings (.colon :: pending) (before ++ consequent ++ [.colon])
  | group {bindings pending before} (opened : Opens bindings pending before) :
      Opens bindings (.group :: pending) (before ++ [.openParen])
  | binding {bindings pending before path keys} (name : String)
      (opened : Opens bindings pending before) (bound : DerivesPath bindings path keys) :
      Opens ((name, keys) :: bindings) (.binding :: pending)
        (before ++ .reserved .letWord :: .name name :: .assign :: path ++
          [.reserved .inWord, .openParen])

/-- The tokens end with something that is complete on a level, while operators wait. -/
inductive Completes (level : Level) (bindings : Bindings) (pending : List Pending) :
    List Token → Prop
  | intro {before operand formula} (opened : Opens bindings pending before)
      (derived : Derives level bindings operand formula) :
      Completes level bindings pending (before ++ operand)

section Reduce

variable {bindings : Bindings} {pending : List Pending} {tokens : List Token}

theorem reduce_cons {condition : Pending → Bool} {top : Pending} (holds : condition top = true)
    (pending : List Pending) (operands : List Expr) :
    reduce condition (top :: pending) operands = reduce condition pending (top.apply operands) :=
  if_pos holds

theorem reduce_of_not {condition : Pending → Bool} {top : Pending} (stays : condition top = false)
    (pending : List Pending) (operands : List Expr) :
    reduce condition (top :: pending) operands = (top :: pending, operands) :=
  if_neg (by simp [stays])

/-- Applying some operators first does not matter if they are applied anyway. -/
theorem reduce_reduce {first second : Pending → Bool}
    (implies : ∀ top, first top = true → second top = true) (pending : List Pending)
    (operands : List Expr) :
    reduce second (reduce first pending operands).1 (reduce first pending operands).2 =
      reduce second pending operands := by
  induction pending generalizing operands with
  | nil => rfl
  | cons top pending ih =>
      cases applied : first top with
      | false => rw [reduce_of_not applied]
      | true => rw [reduce_cons applied, ih, reduce_cons (implies top applied)]

theorem isComplete_of_isLogical (top : Pending) (logical : top.isLogical = true) :
    top.isComplete = true := by
  cases top with
  | not | and => rfl
  | question | colon | group | binding => cases logical

theorem loose_cons {top : Pending} (other : top.isLogical = false) : Loose (top :: pending) := by
  intro first member
  cases member
  exact other

theorem reduce_loose (loose : Loose pending) (operands : List Expr) :
    reduce Pending.isLogical pending operands = (pending, operands) := by
  cases pending with
  | nil => rfl
  | cons top pending => exact reduce_of_not (loose top rfl) pending operands

/-- Applying the operators that bind tighter completes a conjunction. -/
theorem completes_conjunction (completed : Completes .unary bindings pending tokens)
    (operands : List Expr) :
    Completes .conjunction bindings (reduce Pending.isLogical pending operands).1 tokens ∧
      Loose (reduce Pending.isLogical pending operands).1 := by
  induction pending generalizing tokens operands with
  | nil =>
      rcases completed with ⟨opened, derived⟩
      exact ⟨.intro opened (.ofUnary derived), by simp [reduce, Loose]⟩
  | cons top pending ih =>
      rcases completed with ⟨opened, derived⟩
      cases top with
      | not =>
          cases opened with
          | not opened =>
              rw [List.append_assoc]
              exact ih (.intro opened (.not derived)) _
      | and =>
          cases opened with
          | and opened loose left =>
              rw [reduce_cons rfl, reduce_loose loose, List.append_assoc, List.append_assoc]
              exact ⟨.intro opened (.and left derived), loose⟩
      | question | colon | group | binding =>
          exact ⟨.intro opened (.ofUnary derived), loose_cons rfl⟩

/-- Applying all operators up to the innermost open `?` or group completes an expression. -/
theorem completes_expr_of_loose (completed : Completes .expr bindings pending tokens)
    (loose : Loose pending) (operands : List Expr) :
    Completes .expr bindings (reduce Pending.isComplete pending operands).1 tokens := by
  induction pending generalizing tokens operands with
  | nil => exact completed
  | cons top pending ih =>
      cases top with
      | not | and => exact absurd (loose _ rfl) (by decide)
      | question | group | binding => exact completed
      | colon =>
          rcases completed with ⟨opened, whenFalse⟩
          cases opened with
          | colon opened whenTrue =>
              cases opened with
              | question opened looseBefore test =>
                  have conditional := Completes.intro opened (.cond test whenTrue whenFalse)
                  rw [reduce_cons rfl]
                  exact ih (by simpa using conditional) looseBefore _

theorem completes_expr (completed : Completes .unary bindings pending tokens)
    (operands : List Expr) :
    Completes .expr bindings (reduce Pending.isComplete pending operands).1 tokens := by
  rw [← reduce_reduce isComplete_of_isLogical]
  rcases completes_conjunction completed operands with ⟨⟨opened, derived⟩, loose⟩
  exact completes_expr_of_loose (.intro opened (.ofConjunction derived)) loose _

end Reduce

/-- What the tokens passed so far say about a state. -/
structure Reads (bindings : Bindings) (state : State) (tokens : List Token) : Prop where
  names : state.scope.map Prod.fst = bindings.map Prod.fst
  opens : state.phase = .operand → Opens bindings state.pending tokens
  completes : state.phase = .operator → Completes .unary bindings state.pending tokens

namespace Reads

variable {bindings : Bindings} {state next : State} {tokens : List Token} {head : Located}
  {later rest : List Located}

theorem initial : Reads [(rootName, [])] .initial [] :=
  ⟨rfl, fun _ => .start, by simp [State.initial]⟩

theorem operandStep (reads : Reads bindings state tokens) (phase : state.phase = .operand)
    (read : Parser.operandStep state head later = .ok (next, rest)) :
    ∃ inner consumed, later = consumed ++ rest ∧
      Reads inner next (tokens ++ (head :: consumed).map Located.token) := by
  have opened := reads.opens phase
  simp only [Parser.operandStep] at read
  simp only [List.map_cons]
  split at read
  · rename_i token
    simp only [Except.ok.injEq, Prod.mk.injEq] at read
    rcases read with ⟨rfl, rfl⟩
    refine ⟨bindings, [], rfl, reads.names, fun _ => ?_, by simp [phase]⟩
    rw [token]
    exact .not opened
  · rename_i token
    simp only [Except.ok.injEq, Prod.mk.injEq] at read
    rcases read with ⟨rfl, rfl⟩
    refine ⟨bindings, [], rfl, reads.names, fun _ => ?_, by simp [phase]⟩
    rw [token]
    exact .group opened
  · rename_i token
    split at read
    · simp at read
    · rename_i bound slots afterBinding bindingRead
      simp only [Except.ok.injEq, Prod.mk.injEq] at read
      rcases read with ⟨rfl, rfl⟩
      rcases derives_of_binding reads.names bindingRead with
        ⟨consumed, path, reached, rfl, spelled, derived⟩
      refine ⟨(bound.1, reached) :: bindings, consumed, rfl, by simp [reads.names],
        fun _ => ?_, by simp [phase]⟩
      rw [token, spelled]
      simpa using Opens.binding bound.1 opened derived
  · split at read
    · simp at read
    · rename_i expr slots afterAtom atomRead
      simp only [Except.ok.injEq, Prod.mk.injEq] at read
      rcases read with ⟨rfl, rfl⟩
      rcases derives_of_atom reads.names atomRead with ⟨consumed, formula, rfl, derived⟩
      exact ⟨bindings, consumed, rfl, reads.names, by simp,
        fun _ => .intro opened (.ofAtom derived)⟩

theorem operatorStep (reads : Reads bindings state tokens) (phase : state.phase = .operator)
    (read : Parser.operatorStep state head = .ok next) :
    ∃ inner, Reads inner next (tokens ++ [head.token]) := by
  have completed := reads.completes phase
  simp only [Parser.operatorStep] at read
  split at read
  · rename_i token
    cases read
    rcases completes_conjunction completed state.operands with ⟨⟨opened, derived⟩, loose⟩
    refine ⟨bindings, reads.names, fun _ => ?_, by simp [pushLoose]⟩
    rw [token]
    exact .and opened loose derived
  · rename_i token
    cases read
    rcases completes_conjunction completed state.operands with ⟨⟨opened, derived⟩, loose⟩
    refine ⟨bindings, reads.names, fun _ => ?_, by simp [pushLoose]⟩
    rw [token]
    exact .question opened loose derived
  · rename_i token
    have reduced := completes_expr completed state.operands
    split at read
    · rename_i pending operands stacked
      cases read
      rw [stacked] at reduced
      rcases reduced with ⟨opened, derived⟩
      refine ⟨bindings, reads.names, fun _ => ?_, by simp⟩
      rw [token]
      exact .colon opened derived
    · simp at read
  · rename_i token
    have reduced := completes_expr completed state.operands
    split at read
    · rename_i pending operands stacked
      cases read
      rw [stacked] at reduced
      rcases reduced with ⟨opened, derived⟩
      cases opened with
      | group opened =>
          refine ⟨bindings, reads.names, by simp [phase], fun _ => ?_⟩
          rw [token]
          simpa using Completes.intro opened (.ofAtom (.group derived))
    · rename_i pending operands stacked
      cases read
      rw [stacked] at reduced
      rcases reduced with ⟨opened, derived⟩
      cases opened with
      | @binding outer _ _ _ _ name opened bound =>
          refine ⟨outer, by simp [reads.names, List.map_tail], by simp [phase], fun _ => ?_⟩
          rw [token]
          simpa using Completes.intro opened (.ofAtom (.binding name bound derived))
    · simp at read
  · simp at read

/-- A step passes tokens that keep what the tokens say about the state. -/
theorem step (reads : Reads bindings state tokens)
    (read : Parser.step state head later = .ok (next, rest)) :
    ∃ inner consumed, later = consumed ++ rest ∧
      Reads inner next (tokens ++ (head :: consumed).map Located.token) := by
  simp only [Parser.step] at read
  split at read
  · rename_i phase
    exact reads.operandStep phase read
  · rename_i phase
    split at read
    · simp at read
    · rename_i operatorRead
      simp only [Except.ok.injEq, Prod.mk.injEq] at read
      rcases read with ⟨rfl, rfl⟩
      rcases reads.operatorStep phase operatorRead with ⟨inner, reads⟩
      exact ⟨inner, [], rfl, reads⟩

theorem finish (reads : Reads bindings state tokens) {found : Expr × Array Slot}
    (read : Parser.finish state = .ok found) : ∃ formula, IsExpr tokens formula := by
  simp only [Parser.finish] at read
  split at read
  · rename_i expr phase stacked
    have reduced := completes_expr (reads.completes phase) state.operands
    rw [stacked] at reduced
    rcases reduced with ⟨opened, derived⟩
    cases opened
    exact ⟨_, derived⟩
  · simp at read

/-- If the rest of the source is read, all tokens together are derived. -/
theorem run (reads : Reads bindings state tokens) {found : Expr × Array Slot}
    (read : Parser.run state rest = .ok found) :
    ∃ formula, IsExpr (tokens ++ rest.map Located.token) formula := by
  fun_induction Parser.run state rest generalizing bindings tokens with
  | case1 state =>
      rw [List.map_nil, List.append_nil]
      exact reads.finish read
  | case2 => simp at read
  | case3 state head tail next rest stepRead ih =>
      rcases reads.step stepRead with ⟨inner, consumed, rfl, reads⟩
      rcases ih reads read with ⟨formula, derived⟩
      refine ⟨formula, ?_⟩
      rw [← List.cons_append, List.map_append, ← List.append_assoc]
      exact derived

end Reads

end Parser

/-- Whatever is read as a check expression is derived by the grammar. -/
theorem Expr.exists_isExpr_of_ofTokens {tokens : List Located} {found : Expr × Array Slot}
    (read : Expr.ofTokens tokens = .ok found) :
    ∃ formula, IsExpr (tokens.map Located.token) formula :=
  Parser.Reads.initial.run read

end Check

end JsonShape
