import JsonShape.Proofs.Check.Completeness
import JsonShape.Proofs.Check.Readers

/-!
# Errors do not depend on what follows

The readers of paths, tests and bindings are put together from readers of one token and of lists of
names, and so is what a step reads. All of them are steady. Hence the error of a whole expression,
which stands at one of its tokens, is the error of every longer list of tokens.
-/

namespace JsonShape

namespace Check

namespace Parser

/-! ### Single tokens -/

/-- Reads a token that must follow. -/
def passing (token : Token) : Reader Unit :=
  fun tokens =>
    match expect token tokens with
    | .error error => .error error
    | .ok rest => .ok ((), rest)

theorem patient_passing (token : Token) : Patient (passing token) := by
  apply patient_of_head rfl
  intro head
  by_cases same : head.token = token
  · have passed : (fun tail => passing token (head :: tail)) = give () := by
      funext tail
      simp only [passing, expect, if_pos same, give]
    rw [passed]
    exact (patient_give ()).steady head.offset
  · have refused : (fun tail => passing token (head :: tail)) =
        refuse (.unexpectedToken head.offset) := by
      funext tail
      simp only [passing, expect, if_neg same, refuse]
    rw [refused]
    exact steady_unexpected head.offset

theorem patient_text : Patient text := by
  apply patient_of_head rfl
  rintro ⟨offset, token⟩
  cases token with
  | text value => exact (patient_give value).steady offset
  | _ => exact steady_unexpected offset

theorem patient_comparison : Patient comparison := by
  apply patient_of_head rfl
  rintro ⟨offset, token⟩
  cases token with
  | reserved word =>
      cases word with
      | nullWord => exact (patient_give Test.isNull).steady offset
      | undefinedWord => exact (patient_give Test.isAbsent).steady offset
      | _ => exact steady_unexpected offset
  | _ => exact steady_unexpected offset

theorem patient_boundName : Patient boundName := by
  apply patient_of_head rfl
  rintro ⟨offset, token⟩
  cases token with
  | name bound => exact (patient_give bound).steady offset
  | _ => exact steady_unexpected offset

/-- Reads the name of a kind. -/
def kindName : Reader Json.Kind :=
  fun tokens =>
    match text tokens with
    | .error error => .error error
    | .ok (spelling, rest) =>
        match Json.Kind.ofSpelling? spelling with
        | none => .error (.unknownType spelling)
        | some kind => .ok (kind, rest)

theorem patient_kindName : Patient kindName := by
  apply patient_of_head rfl
  rintro ⟨offset, token⟩
  cases token with
  | text spelling =>
      cases known : Json.Kind.ofSpelling? spelling with
      | none =>
          have refused : (fun tail => kindName (⟨offset, .text spelling⟩ :: tail)) =
              refuse (.unknownType spelling) := by
            funext tail
            simp only [kindName, text, known, refuse]
          rw [refused]
          apply steady_refuse
          rintro blamed ⟨⟩
      | some kind =>
          have read : (fun tail => kindName (⟨offset, .text spelling⟩ :: tail)) = give kind := by
            funext tail
            simp only [kindName, text, known, give]
          rw [read]
          exact (patient_give kind).steady offset
  | _ => exact steady_unexpected offset

/-! ### Lists of names -/

theorem patient_keys : Patient keys := by
  have repeats : Repeats .openBracket
      (andThen text fun key => andThen (passing .closeBracket) fun _ => give key) keys := by
    constructor
    · intro offset tail
      rw [keys]
      simp only [andThen, passing]
      split
      · rename_i textRead
        rw [textRead]
      · rename_i key afterKey textRead
        rw [textRead]
        dsimp only
        split
        · rename_i closeRead
          rw [closeRead]
        · rename_i afterMember closeRead
          rw [closeRead]
          simp only [give]
          cases keys afterMember <;> rfl
    · intro tokens avoids
      have read : keys ([] ++ tokens) = .ok ([], tokens) := keys_append rfl avoids
      exact read
  apply repeats.patient
  exact patient_andThen patient_text fun key =>
    patient_andThen (patient_passing .closeBracket) fun _ => patient_give key

theorem patient_names : Patient names := by
  have repeats : Repeats .comma text names := by
    constructor
    · intro offset tail
      rw [names]
      simp only [andThen]
      split
      · rename_i textRead
        rw [textRead]
      · rename_i name afterName textRead
        rw [textRead]
        dsimp only
        cases names afterName <;> rfl
    · intro tokens avoids
      have read : names ([] ++ tokens) = .ok ([], tokens) := names_append rfl avoids
      exact read
  exact repeats.patient patient_text

/-! ### Paths, tests and bindings -/

section Parts

variable (scope : List (String × Nat)) (slots : Array Slot)

theorem steady_pathFrom (offset : Nat) (name : String) :
    Steady offset (pathFrom scope slots offset name) := by
  cases bound : scope.lookup name with
  | none =>
      have unknown : pathFrom scope slots offset name = refuse (.unknownName offset name) := by
        funext tokens
        simp only [pathFrom, resolve, bound, refuse]
      rw [unknown]
      apply steady_refuse
      rintro blamed ⟨⟩
      rfl
  | some base =>
      have known : pathFrom scope slots offset name =
          andThen keys fun members => give (Slot.internPath slots base members) := by
        funext tokens
        simp only [pathFrom, resolve, bound, andThen]
        cases keys tokens <;> rfl
      rw [known]
      exact steady_andThen (patient_keys.steady offset) fun _ => patient_give _

theorem patient_path : Patient (path scope slots) := by
  apply patient_of_head rfl
  rintro ⟨offset, token⟩
  cases token with
  | name first => exact steady_pathFrom scope slots offset first
  | _ => exact steady_unexpected offset

theorem patient_kindTest : Patient (kindTest scope slots) := by
  have inParts : kindTest scope slots =
      andThen (path scope slots) fun found =>
        andThen (passing .same) fun _ =>
          andThen kindName fun kind => give (.test found.1 (.isKind kind), found.2) := by
    funext tokens
    simp only [kindTest, andThen, passing, kindName]
    cases path scope slots tokens with
    | error => rfl
    | ok found =>
        dsimp only
        cases expect .same found.2 with
        | error => rfl
        | ok afterSame =>
            dsimp only
            cases text afterSame with
            | error => rfl
            | ok spelled =>
                dsimp only
                cases Json.Kind.ofSpelling? spelled.1 <;> rfl
  rw [inParts]
  refine patient_andThen (patient_path scope slots) fun found => ?_
  refine patient_andThen (patient_passing .same) fun _ => ?_
  exact patient_andThen patient_kindName fun kind => patient_give _

theorem patient_onlyKeysTest : Patient (onlyKeysTest scope slots) := by
  have inParts : onlyKeysTest scope slots =
      andThen (passing .openParen) fun _ =>
        andThen (path scope slots) fun found =>
          andThen names fun listed =>
            andThen (passing .closeParen) fun _ =>
              give (.test found.1 (.onlyKeys (Members.sortedNames listed)), found.2) := by
    funext tokens
    simp only [onlyKeysTest, andThen, passing]
    cases expect .openParen tokens with
    | error => rfl
    | ok afterOpen =>
        dsimp only
        cases path scope slots afterOpen with
        | error => rfl
        | ok found =>
            dsimp only
            cases names found.2 with
            | error => rfl
            | ok listed =>
                dsimp only
                cases expect .closeParen listed.2 <;> rfl
  rw [inParts]
  refine patient_andThen (patient_passing .openParen) fun _ => ?_
  refine patient_andThen (patient_path scope slots) fun found => ?_
  refine patient_andThen patient_names fun listed => ?_
  exact patient_andThen (patient_passing .closeParen) fun _ => patient_give _

theorem steady_comparisonTest (offset : Nat) (name : String) :
    Steady offset (comparisonTest scope slots offset name) := by
  have inParts : comparisonTest scope slots offset name =
      andThen (pathFrom scope slots offset name) fun found =>
        andThen (passing .same) fun _ =>
          andThen comparison fun asked => give (.test found.1 asked, found.2) := by
    funext tokens
    simp only [comparisonTest, andThen, passing]
    cases pathFrom scope slots offset name tokens with
    | error => rfl
    | ok found =>
        dsimp only
        cases expect .same found.2 with
        | error => rfl
        | ok afterSame =>
            dsimp only
            cases comparison afterSame <;> rfl
  rw [inParts]
  refine steady_andThen (steady_pathFrom scope slots offset name) fun found => ?_
  refine patient_andThen (patient_passing .same) fun _ => ?_
  exact patient_andThen patient_comparison fun asked => patient_give _

theorem patient_hasTest (key : String) : Patient (hasTest scope slots key) := by
  have inParts : hasTest scope slots key =
      andThen (passing (.reserved .inWord)) fun _ =>
        andThen (path scope slots) fun found => give (.test found.1 (.has key), found.2) := by
    funext tokens
    simp only [hasTest, andThen, passing]
    cases expect (.reserved .inWord) tokens with
    | error => rfl
    | ok afterIn =>
        dsimp only
        cases path scope slots afterIn <;> rfl
  rw [inParts]
  refine patient_andThen (patient_passing (.reserved .inWord)) fun _ => ?_
  exact patient_andThen (patient_path scope slots) fun found => patient_give _

theorem patient_binding : Patient (binding scope slots) := by
  have inParts : binding scope slots =
      andThen boundName fun name =>
        andThen (passing .assign) fun _ =>
          andThen (path scope slots) fun found =>
            andThen (passing (.reserved .inWord)) fun _ =>
              andThen (passing .openParen) fun _ => give ((name, found.1), found.2) := by
    funext tokens
    simp only [binding, andThen, passing]
    cases boundName tokens with
    | error => rfl
    | ok named =>
        dsimp only
        cases expect .assign named.2 with
        | error => rfl
        | ok afterAssign =>
            dsimp only
            cases path scope slots afterAssign with
            | error => rfl
            | ok found =>
                dsimp only
                cases expect (.reserved .inWord) found.2 with
                | error => rfl
                | ok afterIn =>
                    dsimp only
                    cases expect .openParen afterIn <;> rfl
  rw [inParts]
  refine patient_andThen patient_boundName fun name => ?_
  refine patient_andThen (patient_passing .assign) fun _ => ?_
  refine patient_andThen (patient_path scope slots) fun found => ?_
  refine patient_andThen (patient_passing (.reserved .inWord)) fun _ => ?_
  exact patient_andThen (patient_passing .openParen) fun _ => patient_give _

theorem steady_atom (head : Located) : Steady head.offset (atom scope slots head) := by
  rcases head with ⟨offset, token⟩
  cases token with
  | reserved word =>
      cases word with
      | trueWord => exact (patient_give (Expr.constant true, slots)).steady offset
      | falseWord => exact (patient_give (Expr.constant false, slots)).steady offset
      | typeofWord => exact (patient_kindTest scope slots).steady offset
      | onlyKeysWord => exact (patient_onlyKeysTest scope slots).steady offset
      | _ => exact steady_unexpected offset
  | name first => exact steady_comparisonTest scope slots offset first
  | text key => exact (patient_hasTest scope slots key).steady offset
  | _ => exact steady_unexpected offset

end Parts

/-! ### Steps and runs -/

/-- A token that opens neither a group nor a binding and inverts nothing begins a test. -/
theorem operandStep_eq_atom (state : State) {head : Located} (notNot : head.token ≠ .not)
    (notGroup : head.token ≠ .openParen) (notLet : head.token ≠ .reserved .letWord) :
    operandStep state head =
      andThen (atom state.scope state.slots head) fun found =>
        give { state with
          phase := .operator
          operands := found.1 :: state.operands
          slots := found.2 } := by
  funext tokens
  simp only [operandStep, andThen]
  cases atom state.scope state.slots head tokens <;> rfl

theorem operandStep_let (state : State) (offset : Nat) :
    operandStep state ⟨offset, .reserved .letWord⟩ =
      andThen (binding state.scope state.slots) fun found =>
        give { state with
          pending := .binding :: state.pending
          scope := found.1 :: state.scope
          slots := found.2 } := by
  funext tokens
  simp only [operandStep, andThen]
  cases binding state.scope state.slots tokens <;> rfl

theorem steady_operandStep (state : State) (head : Located) :
    Steady head.offset (operandStep state head) := by
  rcases head with ⟨offset, token⟩
  by_cases isNot : token = .not
  · subst isNot
    exact (patient_give { state with pending := .not :: state.pending }).steady offset
  by_cases isGroup : token = .openParen
  · subst isGroup
    exact (patient_give { state with pending := .group :: state.pending }).steady offset
  by_cases isLet : token = .reserved .letWord
  · subst isLet
    rw [operandStep_let]
    have bound := (patient_binding state.scope state.slots).steady offset
    exact steady_andThen bound fun _ => patient_give _
  · rw [operandStep_eq_atom state isNot isGroup isLet]
    exact steady_andThen (steady_atom state.scope state.slots ⟨offset, token⟩)
      fun _ => patient_give _

theorem operatorStep_error {state : State} {head : Located} {error : Error}
    (failed : operatorStep state head = .error error) :
    error = .unexpectedToken head.offset := by
  simp only [operatorStep] at failed
  split at failed
  · cases failed
  · cases failed
  · split at failed <;> cases failed
    rfl
  · split at failed <;> cases failed
    rfl
  · cases failed
    rfl

theorem steady_step (state : State) (head : Located) :
    Steady head.offset (step state head) := by
  cases phase : state.phase with
  | operand =>
      have asOperand : step state head = operandStep state head := by
        funext tokens
        simp only [step, phase]
      rw [asOperand]
      exact steady_operandStep state head
  | operator =>
      cases read : operatorStep state head with
      | ok next =>
          have passed : step state head = give next := by
            funext tokens
            simp only [step, phase, read, give]
          rw [passed]
          exact (patient_give next).steady head.offset
      | error error =>
          have refused : step state head = refuse error := by
            funext tokens
            simp only [step, phase, read, refuse]
          rw [refused, operatorStep_error read]
          exact steady_unexpected head.offset

/-- Where the tokens end, the only error is that they do. -/
theorem finish_error {state : State} {error : Error} (failed : finish state = .error error) :
    error = .unexpectedEnd := by
  simp only [finish] at failed
  split at failed
  · cases failed
  · cases failed
    rfl

theorem run_cons_of_error {state : State} {head : Located} {tail : List Located} {error : Error}
    (failed : step state head tail = .error error) : run state (head :: tail) = .error error := by
  rw [run]
  split
  · rename_i other
    rw [failed] at other
    cases other
    rfl
  · rename_i read
    rw [failed] at read
    cases read

theorem run_append_of_error {state : State} {tokens : List Located} {error : Error}
    (failed : run state tokens = .error error) (hard : error ≠ .unexpectedEnd)
    (more : List Located) : run state (tokens ++ more) = .error error := by
  fun_induction run state tokens with
  | case1 state => exact absurd (finish_error failed) hard
  | case2 state head tail other stepFailed =>
      cases failed
      rw [List.cons_append, run_cons_of_error]
      exact (steady_step state head).fails stepFailed hard more
  | case3 state head tail next rest stepped ih =>
      -- without tokens left the run would finish, and finishing has no other error
      have left : rest ≠ [] := by
        rintro rfl
        rw [run] at failed
        exact hard (finish_error failed)
      rw [List.cons_append, run_of_step ((steady_step state head).passes stepped left more)]
      exact ih failed

theorem run_error_mem {state : State} {tokens : List Located} {error : Error}
    (failed : run state tokens = .error error) :
    ∀ offset ∈ error.offset?, offset ∈ tokens.map Located.offset := by
  intro offset isOffset
  fun_induction run state tokens with
  | case1 state =>
      rw [finish_error failed] at isOffset
      cases isOffset
  | case2 state head tail other stepFailed =>
      cases failed
      rcases (steady_step state head).blames stepFailed offset isOffset with rfl | inside
      · simp
      · exact List.mem_cons_of_mem _ inside
  | case3 state head tail next rest stepped ih =>
      have suffix := ((steady_step state head).suffix stepped).map Located.offset
      exact List.mem_cons_of_mem _ (suffix.subset (ih failed))

end Parser

namespace Expr

variable {tokens : List Located} {error : Error}

/-- An error other than an early end is the error of all longer lists of tokens. -/
theorem ofTokens_append_of_error (failed : ofTokens tokens = .error error)
    (hard : error ≠ .unexpectedEnd) (more : List Located) :
    ofTokens (tokens ++ more) = .error error :=
  Parser.run_append_of_error failed hard more

/-- The position of an error is that of a token. -/
theorem exists_mem_of_ofTokens_error (failed : ofTokens tokens = .error error) {offset : Nat}
    (placed : error.offset? = some offset) : ∃ located ∈ tokens, located.offset = offset := by
  have inside := Parser.run_error_mem failed offset placed
  exact List.mem_map.mp inside

end Expr

end Check

end JsonShape
