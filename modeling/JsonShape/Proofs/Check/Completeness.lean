import JsonShape.Proofs.Check.Soundness

/-!
# What is derived is read

The parser passes the tokens of a derivation and then has one more operand: the formula, its paths
numbered by the table of slots that it has then. Operators of the derivation may still wait on the
stack, but only those that are applied before anything looser than the level of the derivation
(`Level.reduces`), and once they are applied the operand stands alone (`Passes.stacked`). The lemmas
about `Readable` follow the constructors of `Derives`.
-/

namespace JsonShape

namespace Check

/-- The operators that are applied before anything that stands behind an operand of a level. -/
def Level.reduces : Level → Pending → Bool
  | .expr => Pending.isComplete
  | .conjunction | .unary => Pending.isLogical
  | .atom => fun _ => false

/-- The waiting operators on which an operand of a level may stand. -/
def Level.Fits : Level → List Pending → Prop
  | .expr, pending | .conjunction, pending => Parser.Loose pending
  | .unary, _ | .atom, _ => True

namespace Parser

/-- An operand must follow, and the names in scope are those that the grammar binds. -/
structure Ready (bindings : Bindings) (state : State) : Prop where
  phase : state.phase = .operand
  interned : Slot.Interned state.slots
  agrees : Agrees state.slots state.scope bindings

/-- An operand of a level has been read whose meaning is a formula. -/
structure Passes (level : Level) (state : State) (formula : Formula) (next : State) : Prop where
  phase : next.phase = .operator
  scope : next.scope = state.scope
  slots : next.slots = Slot.internPaths state.slots formula.mentions
  stacked : reduce level.reduces next.pending next.operands =
    reduce level.reduces state.pending
      (formula.toExpr (Slot.number next.slots) :: state.operands)

/-- The parser reads the tokens as an operand of the level with the formula as its meaning. -/
def Readable (level : Level) (bindings : Bindings) (tokens : List Token) (formula : Formula) :
    Prop :=
  ∀ (state : State) (consumed rest : List Located), Ready bindings state →
    level.Fits state.pending → consumed.map Located.token = tokens → Avoids .openBracket rest →
      ∃ next, Passes level state formula next ∧ run state (consumed ++ rest) = run next rest

namespace Ready

variable {bindings : Bindings} {state : State}

theorem initial : Ready [(rootName, [])] .initial :=
  ⟨rfl, .initial, .initial⟩

theorem push (ready : Ready bindings state) (pending : List Pending) :
    Ready bindings { state with pending } :=
  ⟨ready.phase, ready.interned, ready.agrees⟩

/-- A path is bound to a name. -/
theorem bind (ready : Ready bindings state) (pending : List Pending) (name : String)
    (keys : List String) :
    Ready ((name, keys) :: bindings)
      { state with
        pending
        scope := (name, (Slot.internPath state.slots 0 keys).1) :: state.scope
        slots := (Slot.internPath state.slots 0 keys).2 } := by
  have located := Slot.locates_number ready.interned keys
  have grown := ready.agrees.grow ready.interned located.interned located.grown
  have pushed := grown.push name located.known
  rw [located.number_eq] at pushed
  exact ⟨ready.phase, located.interned, pushed⟩

end Ready

section Steps

variable {state next : State} {tail rest : List Located} {offset : Nat} {pending : List Pending}
  {operands : List Expr}

theorem run_of_step {head : Located} (stepped : step state head tail = .ok (next, rest)) :
    run state (head :: tail) = run next rest := by
  rw [run]
  split
  · rename_i failed
    rw [stepped] at failed
    cases failed
  · rename_i read
    rw [stepped] at read
    cases read
    rfl

theorem run_of_operandStep {head : Located} (phase : state.phase = .operand)
    (stepped : operandStep state head tail = .ok (next, rest)) :
    run state (head :: tail) = run next rest := by
  apply run_of_step
  rw [step, phase]
  exact stepped

/-- Reading `&&` or `?`. -/
theorem run_loose {token : Token} {operator : Pending} (phase : state.phase = .operator)
    (stacked : reduce Pending.isLogical state.pending state.operands = (pending, operands))
    (meaning : token = .and ∧ operator = .and ∨ token = .question ∧ operator = .question) :
    run state (⟨offset, token⟩ :: rest) =
      run { state with phase := .operand, pending := operator :: pending, operands } rest := by
  apply run_of_step
  rcases meaning with ⟨rfl, rfl⟩ | ⟨rfl, rfl⟩
  · simp [step, phase, operatorStep, pushLoose, stacked]
  · simp [step, phase, operatorStep, pushLoose, stacked]

theorem run_colon (phase : state.phase = .operator)
    (stacked : reduce Pending.isComplete state.pending state.operands =
      (.question :: pending, operands)) :
    run state (⟨offset, .colon⟩ :: rest) =
      run { state with phase := .operand, pending := .colon :: pending, operands } rest := by
  apply run_of_step
  simp [step, phase, operatorStep, stacked]

theorem run_closeGroup (phase : state.phase = .operator)
    (stacked : reduce Pending.isComplete state.pending state.operands =
      (.group :: pending, operands)) :
    run state (⟨offset, .closeParen⟩ :: rest) = run { state with pending, operands } rest := by
  apply run_of_step
  simp [step, phase, operatorStep, stacked]

theorem run_closeBinding (phase : state.phase = .operator)
    (stacked : reduce Pending.isComplete state.pending state.operands =
      (.binding :: pending, operands)) :
    run state (⟨offset, .closeParen⟩ :: rest) =
      run { state with pending, operands, scope := state.scope.tail } rest := by
  apply run_of_step
  simp [step, phase, operatorStep, stacked]

end Steps

section Passing

variable {level : Level} {bindings : Bindings} {state next : State} {formula : Formula}

/-- Behind an operand another may follow in the same scope. -/
theorem Passes.ready (passes : Passes level state formula next) (ready : Ready bindings state)
    (pending : List Pending) (operands : List Expr) :
    Ready bindings { next with phase := .operand, pending, operands } := by
  rcases Slot.internPaths_spec ready.interned formula.mentions with ⟨interned, grown, -⟩
  rw [← passes.slots] at interned grown
  refine ⟨rfl, interned, ?_⟩
  change Agrees next.slots next.scope bindings
  rw [passes.scope]
  exact ready.agrees.grow ready.interned interned grown

/-- The paths of an operand keep their numbers when more paths are numbered. -/
theorem Passes.toExpr_eq (passes : Passes level state formula next) (ready : Ready bindings state)
    (more : List (List String)) :
    formula.toExpr (Slot.number (Slot.internPaths next.slots more)) =
      formula.toExpr (Slot.number next.slots) := by
  rcases Slot.internPaths_spec ready.interned formula.mentions with ⟨interned, -, known⟩
  rw [← passes.slots] at interned known
  rcases Slot.internPaths_spec interned more with ⟨internedAfter, grown, -⟩
  apply Formula.toExpr_congr
  intro path member
  exact (known path member).number_eq interned internedAfter grown

end Passing

/-! ### Atoms without a group -/

section Atoms

variable {bindings : Bindings} {tokens path : List Token} {keys : List String}

theorem operandStep_of_atom {state : State} {head : Located} {tail rest : List Located}
    {expr : Expr} {slots : Array Slot}
    (read : atom state.scope state.slots head tail = .ok ((expr, slots), rest)) :
    operandStep state head tail =
      .ok ({ state with phase := .operator, operands := expr :: state.operands, slots }, rest) := by
  unfold operandStep
  split
  case h_1 token | h_2 token | h_3 token => simp [atom, token] at read
  case h_4 => rw [read]

theorem readable_of_atom {formula : Formula} (nonempty : tokens ≠ [])
    (read : ∀ (scope : List (String × Nat)) (slots : Array Slot) (head : Located)
      (tail rest : List Located), Slot.Interned slots → Agrees slots scope bindings →
        head.token :: tail.map Located.token = tokens → Avoids .openBracket rest →
          let after := Slot.internPaths slots formula.mentions
          atom scope slots head (tail ++ rest) =
            .ok ((formula.toExpr (Slot.number after), after), rest)) :
    Readable .atom bindings tokens formula := by
  intro state consumed rest ready _ spelled ends
  cases consumed with
  | nil => exact absurd spelled.symm nonempty
  | cons head tail =>
      have atomRead := read state.scope state.slots head tail rest ready.interned ready.agrees
        spelled ends
      let after := Slot.internPaths state.slots formula.mentions
      let next : State := ⟨.operator, formula.toExpr (Slot.number after) :: state.operands,
        state.pending, state.scope, after⟩
      refine ⟨next, ⟨rfl, rfl, rfl, rfl⟩, ?_⟩
      exact run_of_operandStep ready.phase (operandStep_of_atom atomRead)

theorem readable_constant {word : Keyword} {value : Bool}
    (meaning : word = .trueWord ∧ value = true ∨ word = .falseWord ∧ value = false) :
    Readable .atom bindings [.reserved word] (.constant value) := by
  apply readable_of_atom (by simp)
  intro scope slots head tail rest interned agrees spelled ends after
  simp only [List.cons.injEq, List.map_eq_nil_iff] at spelled
  rcases spelled with ⟨token, rfl⟩
  rcases meaning with ⟨rfl, rfl⟩ | ⟨rfl, rfl⟩
  · rw [atom, token]
    rfl
  · rw [atom, token]
    rfl

/-- Atoms that test the value that a path reaches. -/
theorem readable_test {asked : Test} (nonempty : tokens ≠ [])
    (read : ∀ (scope : List (String × Nat)) (slots : Array Slot) (head : Located)
      (tail rest : List Located), Slot.Interned slots → Agrees slots scope bindings →
        head.token :: tail.map Located.token = tokens → Avoids .openBracket rest →
          atom scope slots head (tail ++ rest) =
            .ok ((.test (Slot.internPath slots 0 keys).1 asked,
              (Slot.internPath slots 0 keys).2), rest)) :
    Readable .atom bindings tokens (.test keys asked) := by
  apply readable_of_atom nonempty
  intro scope slots head tail rest interned agrees spelled ends after
  have numbered : Slot.number after keys = (Slot.internPath slots 0 keys).1 :=
    (Slot.locates_number interned keys).number_eq
  rw [read scope slots head tail rest interned agrees spelled ends, Formula.toExpr, numbered]
  rfl

theorem readable_comparison {word : Keyword} {asked : Test}
    (derived : DerivesPath bindings path keys)
    (meaning : word = .nullWord ∧ asked = .isNull ∨ word = .undefinedWord ∧ asked = .isAbsent) :
    Readable .atom bindings (path ++ [.same, .reserved word]) (.test keys asked) := by
  apply readable_test (by simp)
  intro scope slots head tail rest interned agrees spelled ends
  have shaped := derived
  cases shaped with
  | path names bound =>
      rw [List.cons_append, List.cons.injEq] at spelled
      rw [atom, spelled.1]
      exact comparisonTest_append interned agrees derived meaning spelled.2 head.offset

theorem readable_isKind (derived : DerivesPath bindings path keys) (kind : Json.Kind) :
    Readable .atom bindings (.reserved .typeofWord :: path ++ [.same, .text kind.spelling])
      (.test keys (.isKind kind)) := by
  apply readable_test (by simp)
  intro scope slots head tail rest interned agrees spelled ends
  rw [List.cons_append, List.cons.injEq] at spelled
  rw [atom, spelled.1]
  exact kindTest_append interned agrees derived kind spelled.2

theorem readable_has (derived : DerivesPath bindings path keys) (key : String) :
    Readable .atom bindings (.text key :: .reserved .inWord :: path) (.test keys (.has key)) := by
  apply readable_test (by simp)
  intro scope slots head tail rest interned agrees spelled ends
  rw [List.cons.injEq] at spelled
  rw [atom, spelled.1]
  exact hasTest_append interned agrees derived key spelled.2 ends

theorem readable_onlyKeys (derived : DerivesPath bindings path keys) (listed : List String) :
    Readable .atom bindings
      (.reserved .onlyKeysWord :: .openParen :: path ++ Token.ofListed listed ++ [.closeParen])
      (.test keys (.onlyKeys (Members.sortedNames listed))) := by
  apply readable_test (by simp)
  intro scope slots head tail rest interned agrees spelled ends
  rw [List.cons_append, List.cons_append, List.cons.injEq] at spelled
  rw [atom, spelled.1]
  exact onlyKeysTest_append interned agrees derived listed spelled.2

end Atoms

/-! ### Operators and groups -/

section Operators

variable {bindings : Bindings} {tokens left right : List Token} {formula first second : Formula}

/-- An operand of one level is an operand of a looser level. -/
theorem Readable.loosen {inner outer : Level} (read : Readable inner bindings tokens formula)
    (fits : ∀ pending, outer.Fits pending → inner.Fits pending)
    (implies : ∀ top, inner.reduces top = true → outer.reduces top = true) :
    Readable outer bindings tokens formula := by
  intro state consumed rest ready fitting spelled ends
  rcases read state consumed rest ready (fits _ fitting) spelled ends with ⟨next, passes, runs⟩
  refine ⟨next, ⟨passes.phase, passes.scope, passes.slots, ?_⟩, runs⟩
  rw [← reduce_reduce implies next.pending, passes.stacked, reduce_reduce implies]

theorem readable_not (operand : Readable .unary bindings tokens formula) :
    Readable .unary bindings (.not :: tokens) (.not formula) := by
  intro state consumed rest ready _ spelled ends
  rcases List.map_eq_cons_iff.mp spelled with ⟨⟨offset, -⟩, inner, rfl, rfl, spelledInner⟩
  rcases operand _ inner rest (ready.push (.not :: state.pending)) trivial spelledInner ends with
    ⟨next, passes, runs⟩
  refine ⟨next, ⟨passes.phase, passes.scope, passes.slots, passes.stacked⟩, ?_⟩
  rw [List.cons_append, ← runs]
  exact run_of_operandStep ready.phase rfl

/-- What stands in front of `&&` or `?` is one operand when the operator is read. -/
theorem Readable.run_loose (read : Readable .conjunction bindings tokens formula) {state : State}
    (ready : Ready bindings state) (loose : Loose state.pending) {consumed : List Located}
    (spelled : consumed.map Located.token = tokens) {token : Token} {operator : Pending}
    (meaning : token = .and ∧ operator = .and ∨ token = .question ∧ operator = .question)
    (offset : Nat) (rest : List Located) :
    ∃ next, Passes .conjunction state formula next ∧
      run state (consumed ++ ⟨offset, token⟩ :: rest) =
        run { next with
          phase := .operand
          pending := operator :: state.pending
          operands := formula.toExpr (Slot.number next.slots) :: state.operands } rest := by
  have ends : Avoids .openBracket (⟨offset, token⟩ :: rest) := by
    rcases meaning with ⟨rfl, -⟩ | ⟨rfl, -⟩
    · exact avoids_cons (by simp)
    · exact avoids_cons (by simp)
  rcases read state consumed _ ready loose spelled ends with ⟨next, passes, runs⟩
  have stacked : reduce Pending.isLogical next.pending next.operands =
      (state.pending, formula.toExpr (Slot.number next.slots) :: state.operands) :=
    passes.stacked.trans (reduce_loose loose _)
  refine ⟨next, passes, ?_⟩
  rw [runs, Parser.run_loose passes.phase stacked meaning]

theorem readable_and (before : Readable .conjunction bindings left first)
    (last : Readable .unary bindings right second) :
    Readable .conjunction bindings (left ++ .and :: right) (.and first second) := by
  intro state consumed rest ready loose spelled ends
  rcases List.map_eq_append_iff.mp spelled with ⟨leftPart, later, rfl, spelledLeft, spelledLater⟩
  rcases List.map_eq_cons_iff.mp spelledLater with ⟨⟨offset, -⟩, rightPart, rfl, rfl,
    spelledRight⟩
  rw [List.append_assoc, List.cons_append]
  rcases before.run_loose ready loose spelledLeft (.inl ⟨rfl, rfl⟩) offset (rightPart ++ rest) with
    ⟨middle, leftPasses, leftRuns⟩
  have rightReady := leftPasses.ready ready (.and :: state.pending)
    (first.toExpr (Slot.number middle.slots) :: state.operands)
  rcases last _ rightPart rest rightReady trivial spelledRight ends with
    ⟨next, rightPasses, rightRuns⟩
  have slots : next.slots = Slot.internPaths middle.slots second.mentions := rightPasses.slots
  have leftExpr := leftPasses.toExpr_eq ready second.mentions
  rw [← slots] at leftExpr
  refine ⟨next, ⟨rightPasses.phase, rightPasses.scope.trans leftPasses.scope, ?_, ?_⟩, ?_⟩
  · rw [slots, Formula.mentions, Slot.internPaths_append, ← leftPasses.slots]
  · refine rightPasses.stacked.trans ?_
    have applied : Level.unary.reduces .and = true := rfl
    rw [Formula.toExpr, leftExpr, reduce_cons applied]
    rfl
  · exact leftRuns.trans rightRuns

theorem readable_cond {condition consequent alternative : List Token}
    {first second third : Formula} (test : Readable .conjunction bindings condition first)
    (whenTrue : Readable .expr bindings consequent second)
    (whenFalse : Readable .expr bindings alternative third) :
    Readable .expr bindings (condition ++ .question :: consequent ++ .colon :: alternative)
      (.cond first second third) := by
  intro state consumed rest ready loose spelled ends
  rw [List.append_assoc, List.cons_append] at spelled
  rcases List.map_eq_append_iff.mp spelled with ⟨testPart, later, rfl, spelledTest, spelledLater⟩
  rcases List.map_eq_cons_iff.mp spelledLater with ⟨⟨questionOffset, -⟩, branches, rfl, rfl,
    spelledBranches⟩
  rcases List.map_eq_append_iff.mp spelledBranches with ⟨truePart, last, rfl, spelledTrue,
    spelledLast⟩
  rcases List.map_eq_cons_iff.mp spelledLast with ⟨⟨colonOffset, -⟩, falsePart, rfl, rfl,
    spelledFalse⟩
  rw [List.append_assoc, List.cons_append, List.append_assoc, List.cons_append]
  -- the condition, up to the question mark
  rcases test.run_loose ready loose spelledTest (.inr ⟨rfl, rfl⟩) questionOffset
    (truePart ++ ⟨colonOffset, .colon⟩ :: (falsePart ++ rest)) with ⟨tested, testPasses, testRuns⟩
  have trueReady := testPasses.ready ready (.question :: state.pending)
    (first.toExpr (Slot.number tested.slots) :: state.operands)
  -- the consequent, up to the colon
  rcases whenTrue _ truePart (⟨colonOffset, .colon⟩ :: (falsePart ++ rest)) trueReady
    (loose_cons rfl) spelledTrue (avoids_cons (by simp)) with ⟨chosen, truePasses, trueRuns⟩
  have trueStacks : reduce Pending.isComplete chosen.pending chosen.operands =
      (.question :: state.pending, second.toExpr (Slot.number chosen.slots) ::
        first.toExpr (Slot.number tested.slots) :: state.operands) := truePasses.stacked
  have falseReady := truePasses.ready trueReady (.colon :: state.pending)
    (second.toExpr (Slot.number chosen.slots) :: first.toExpr (Slot.number tested.slots) ::
      state.operands)
  -- the alternative
  rcases whenFalse _ falsePart rest falseReady (loose_cons rfl) spelledFalse ends with
    ⟨next, falsePasses, falseRuns⟩
  have trueSlots : chosen.slots = Slot.internPaths tested.slots second.mentions := truePasses.slots
  have falseSlots : next.slots = Slot.internPaths chosen.slots third.mentions := falsePasses.slots
  have secondExpr : second.toExpr (Slot.number next.slots) =
      second.toExpr (Slot.number chosen.slots) := by
    rw [falseSlots, truePasses.toExpr_eq trueReady]
  have firstExpr : first.toExpr (Slot.number next.slots) =
      first.toExpr (Slot.number tested.slots) := by
    rw [falseSlots, trueSlots, ← Slot.internPaths_append, testPasses.toExpr_eq ready]
  refine ⟨next, ⟨falsePasses.phase, (falsePasses.scope.trans truePasses.scope).trans
    testPasses.scope, ?_, ?_⟩, ?_⟩
  · rw [falseSlots, trueSlots, testPasses.slots, Formula.mentions, Slot.internPaths_append,
      Slot.internPaths_append]
  · refine falsePasses.stacked.trans ?_
    have applied : Level.expr.reduces .colon = true := rfl
    rw [Formula.toExpr, firstExpr, secondExpr, reduce_cons applied]
    rfl
  · rw [testRuns, trueRuns, run_colon truePasses.phase trueStacks]
    exact falseRuns

theorem readable_group (inner : Readable .expr bindings tokens formula) :
    Readable .atom bindings (.openParen :: tokens ++ [.closeParen]) formula := by
  intro state consumed rest ready _ spelled ends
  rcases List.map_eq_append_iff.mp spelled with ⟨opening, closing, rfl, spelledOpening,
    spelledClosing⟩
  rcases List.map_eq_cons_iff.mp spelledOpening with ⟨⟨openOffset, -⟩, body, rfl, rfl,
    spelledBody⟩
  simp only [List.map_eq_cons_iff, List.map_eq_nil_iff] at spelledClosing
  rcases spelledClosing with ⟨⟨closeOffset, -⟩, -, rfl, rfl, rfl⟩
  have opened := ready.push (.group :: state.pending)
  rcases inner _ body (⟨closeOffset, .closeParen⟩ :: rest) opened (loose_cons rfl) spelledBody
    (avoids_cons (by simp)) with ⟨next, passes, runs⟩
  have stacked : reduce Pending.isComplete next.pending next.operands = (.group :: state.pending,
      formula.toExpr (Slot.number next.slots) :: state.operands) := passes.stacked
  refine ⟨{ next with
    pending := state.pending
    operands := formula.toExpr (Slot.number next.slots) :: state.operands },
    ⟨passes.phase, passes.scope, passes.slots, rfl⟩, ?_⟩
  rw [← run_closeGroup passes.phase stacked, ← runs, List.append_assoc, List.cons_append]
  exact run_of_operandStep ready.phase rfl

theorem readable_binding {path : List Token} {keys : List String} (name : String)
    (bound : DerivesPath bindings path keys)
    (inner : Readable .expr ((name, keys) :: bindings) tokens formula) :
    Readable .atom bindings
      (.reserved .letWord :: .name name :: .assign :: path ++
        .reserved .inWord :: .openParen :: tokens ++ [.closeParen])
      (.binding keys formula) := by
  intro state consumed rest ready _ spelled ends
  rcases List.map_eq_append_iff.mp spelled with ⟨opening, closing, rfl, spelledOpening,
    spelledClosing⟩
  simp only [List.map_eq_cons_iff, List.map_eq_nil_iff] at spelledClosing
  rcases spelledClosing with ⟨⟨closeOffset, -⟩, -, rfl, rfl, rfl⟩
  have spelledParts : opening.map Located.token = .reserved .letWord ::
      ((.name name :: .assign :: path ++ [.reserved .inWord, .openParen]) ++ tokens) := by
    rw [spelledOpening]
    simp
  rcases List.map_eq_cons_iff.mp spelledParts with ⟨⟨letOffset, -⟩, parts, rfl, rfl, spelledTail⟩
  rcases List.map_eq_append_iff.mp spelledTail with ⟨head, body, rfl, spelledHead, spelledBody⟩
  have opened := ready.bind (.binding :: state.pending) name keys
  rcases inner _ body (⟨closeOffset, .closeParen⟩ :: rest) opened (loose_cons rfl) spelledBody
    (avoids_cons (by simp)) with ⟨next, passes, runs⟩
  have stacked : reduce Pending.isComplete next.pending next.operands = (.binding :: state.pending,
      formula.toExpr (Slot.number next.slots) :: state.operands) := passes.stacked
  have scope : next.scope.tail = state.scope := by
    rw [passes.scope]
    rfl
  refine ⟨{ next with
    pending := state.pending
    operands := formula.toExpr (Slot.number next.slots) :: state.operands
    scope := next.scope.tail }, ⟨passes.phase, scope, passes.slots, rfl⟩, ?_⟩
  rw [← run_closeBinding passes.phase stacked, ← runs]
  have headRead : binding state.scope state.slots
      (head ++ (body ++ ⟨closeOffset, .closeParen⟩ :: rest)) = _ :=
    binding_append ready.interned ready.agrees bound name spelledHead
  simp only [List.cons_append, List.append_assoc, List.nil_append]
  apply run_of_operandStep ready.phase
  simp only [operandStep, headRead]

end Operators

/-- Every derivation is read. -/
theorem readable_of_derives {level : Level} {bindings : Bindings} {tokens : List Token}
    {formula : Formula} (derived : Derives level bindings tokens formula) :
    Readable level bindings tokens formula := by
  induction derived with
  | ofConjunction inner ih => exact ih.loosen (fun _ fits => fits) isComplete_of_isLogical
  | cond test whenTrue whenFalse ihTest ihTrue ihFalse => exact readable_cond ihTest ihTrue ihFalse
  | ofUnary inner ih => exact ih.loosen (fun _ _ => trivial) (fun _ logical => logical)
  | and before last ihBefore ihLast => exact readable_and ihBefore ihLast
  | ofAtom inner ih => exact ih.loosen (fun _ _ => trivial) (fun _ never => nomatch never)
  | not inner ih => exact readable_not ih
  | group inner ih => exact readable_group ih
  | isTrue => exact readable_constant (.inl ⟨rfl, rfl⟩)
  | isFalse => exact readable_constant (.inr ⟨rfl, rfl⟩)
  | binding name bound inner ih => exact readable_binding name bound ih
  | isNull tested => exact readable_comparison tested (.inl ⟨rfl, rfl⟩)
  | isAbsent tested => exact readable_comparison tested (.inr ⟨rfl, rfl⟩)
  | isKind kind tested => exact readable_isKind tested kind
  | has key tested => exact readable_has tested key
  | onlyKeys listed tested => exact readable_onlyKeys tested listed

end Parser

namespace Expr

/-- The expression and the table of slots that are read for a formula. -/
theorem ofTokens_of_isExpr {tokens : List Located} {formula : Formula}
    (derived : IsExpr (tokens.map Located.token) formula) :
    let slots := Slot.internPaths #[.root] formula.mentions
    ofTokens tokens = .ok (formula.toExpr (Slot.number slots), slots) := by
  intro slots
  have ends : Parser.Avoids .openBracket [] := by
    intro head member
    cases member
  have loose : Parser.Loose [] := by
    intro top member
    cases member
  rcases Parser.readable_of_derives derived .initial tokens [] .initial loose rfl ends with
    ⟨next, passes, runs⟩
  have stacked : Parser.reduce Pending.isComplete next.pending next.operands =
      ([], [formula.toExpr (Slot.number next.slots)]) := passes.stacked
  rw [List.append_nil] at runs
  rw [ofTokens, runs, Parser.run, Parser.finish, passes.phase, stacked, passes.slots]
  rfl

/-- What is read is exactly what the grammar derives. -/
theorem ofTokens_eq_ok_iff {tokens : List Located} {found : Expr × Array Slot} :
    ofTokens tokens = .ok found ↔
      ∃ formula, IsExpr (tokens.map Located.token) formula ∧
        found = (formula.toExpr (Slot.number (Slot.internPaths #[.root] formula.mentions)),
          Slot.internPaths #[.root] formula.mentions) := by
  constructor
  · intro read
    rcases exists_isExpr_of_ofTokens read with ⟨formula, derived⟩
    have result := ofTokens_of_isExpr derived
    rw [read] at result
    exact ⟨formula, derived, Except.ok.inj result⟩
  · rintro ⟨formula, derived, rfl⟩
    exact ofTokens_of_isExpr derived

/-- A list of tokens is read if and only if the grammar derives it, and then the expression has the
truth value of the derivation, where each path is tested in the slot that spells it. -/
theorem ofTokens_iff_isExpr_and_eval_eq (tokens : List Located) :
    ((∃ expr slots, ofTokens tokens = .ok (expr, slots)) ↔
        ∃ formula, IsExpr (tokens.map Located.token) formula) ∧
      ∀ (expr : Expr) (slots : Array Slot) (formula : Formula),
        ofTokens tokens = .ok (expr, slots) → IsExpr (tokens.map Located.token) formula →
          (∀ path ∈ formula.mentions, Slot.number slots path < slots.size ∧
            Slot.path slots (Slot.number slots path) = path) ∧
          ∀ truth : Nat → Test → Bool,
            expr.eval truth = formula.eval fun path => truth (Slot.number slots path) := by
  refine ⟨⟨?_, ?_⟩, ?_⟩
  · rintro ⟨expr, slots, read⟩
    exact exists_isExpr_of_ofTokens read
  · rintro ⟨formula, derived⟩
    exact ⟨_, _, ofTokens_of_isExpr derived⟩
  · intro expr slots formula read derived
    rw [ofTokens_of_isExpr derived] at read
    cases read
    rcases Slot.internPaths_spec .initial formula.mentions with ⟨interned, -, known⟩
    refine ⟨?_, fun truth => Formula.eval_toExpr _ truth formula⟩
    intro path member
    exact ⟨(known path member).number_lt interned, (known path member).path_number interned⟩

/-- The tokens of `let v = value["a"] in (!v === null && "b" in v) ? false : true`, in which the
conditional is the loosest operator and `!` the tightest. -/
theorem ofTokens_conditional_of_binding :
    let tokens : List Located := [⟨0, .reserved .letWord⟩, ⟨4, .name "v"⟩, ⟨6, .assign⟩,
      ⟨8, .name "value"⟩, ⟨13, .openBracket⟩, ⟨14, .text "a"⟩, ⟨17, .closeBracket⟩,
      ⟨19, .reserved .inWord⟩, ⟨22, .openParen⟩, ⟨23, .not⟩, ⟨24, .name "v"⟩, ⟨26, .same⟩,
      ⟨30, .reserved .nullWord⟩, ⟨35, .and⟩, ⟨38, .text "b"⟩, ⟨42, .reserved .inWord⟩,
      ⟨45, .name "v"⟩, ⟨46, .closeParen⟩, ⟨48, .question⟩, ⟨50, .reserved .falseWord⟩,
      ⟨56, .colon⟩, ⟨58, .reserved .trueWord⟩]
    let formula : Formula := .cond (.binding ["a"] (.and (.not (.test ["a"] .isNull))
      (.test ["a"] (.has "b")))) (.constant false) (.constant true)
    IsExpr (tokens.map Located.token) formula ∧
      ∃ expr slots, ofTokens tokens = .ok (expr, slots) ∧
        ∀ truth : Nat → Test → Bool,
          expr.eval truth = formula.eval fun path => truth (Slot.number slots path) := by
  intro tokens formula
  have toMember : DerivesPath [(rootName, [])] (.name "value" :: Token.ofKeys ["a"])
      ([] ++ ["a"]) := .path ["a"] (by decide)
  have toBound : DerivesPath [("v", ["a"]), (rootName, [])] (.name "v" :: Token.ofKeys [])
      (["a"] ++ []) := .path [] (by decide)
  have notNull := Derives.not (.ofAtom (.isNull toBound))
  have body := Derives.and (.ofUnary notNull) (.ofAtom (.has "b" toBound))
  have condition := Derives.binding "v" toMember (.ofConjunction body)
  have derived := Derives.cond (.ofUnary (.ofAtom condition))
    (.ofConjunction (.ofUnary (.ofAtom .isFalse))) (.ofConjunction (.ofUnary (.ofAtom .isTrue)))
  have isExpr : IsExpr (tokens.map Located.token) formula := derived
  rcases (ofTokens_iff_isExpr_and_eval_eq tokens).1.mpr ⟨formula, isExpr⟩ with ⟨expr, slots, read⟩
  have meaning := (ofTokens_iff_isExpr_and_eval_eq tokens).2 expr slots formula read isExpr
  exact ⟨isExpr, expr, slots, read, meaning.2⟩

end Expr

end Check

end JsonShape
