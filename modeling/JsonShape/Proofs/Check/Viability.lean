import JsonShape.Proofs.Check.Persistence

/-!
# What is incomplete can be completed

Wherever the parser finds that the tokens end too early, some more tokens make a check expression
of them. A test or binding that is half read is completed first. Then, from the last operator that
waits to the first, `?` gets its alternative and each group its closing parenthesis; an operand
that is still missing is `true`, and a path that is missing is the root.
-/

namespace JsonShape

namespace Check

/-- The tokens that complete what is incomplete. -/
def Token.fillers : List Token :=
  [.reserved .trueWord, .reserved .inWord, .reserved .nullWord, .name rootName, .text "",
    .text Json.Kind.string.spelling, .same, .assign, .colon, .openParen, .closeParen,
    .closeBracket]

namespace Parser

/-- The tokens belong to those that complete what is incomplete. -/
def Fills (more : List Token) : Prop :=
  ∀ token ∈ more, token ∈ Token.fillers

theorem fills_append {first second : List Token} (fillsFirst : Fills first)
    (fillsSecond : Fills second) : Fills (first ++ second) := by
  intro token member
  rcases List.mem_append.mp member with before | behind
  · exact fillsFirst token before
  · exact fillsSecond token behind

instance (more : List Token) : Decidable (Fills more) :=
  inferInstanceAs (Decidable (∀ token ∈ more, token ∈ Token.fillers))

/-! ### Tests and bindings -/

section Parts

variable {tokens : List Located}

theorem eq_nil_of_expect {token : Token} (failed : expect token tokens = .error .unexpectedEnd) :
    tokens = [] := by
  cases tokens with
  | nil => rfl
  | cons head tail =>
      simp only [expect] at failed
      split at failed <;> cases failed

theorem eq_nil_of_text (failed : text tokens = .error .unexpectedEnd) : tokens = [] := by
  simp only [text] at failed
  split at failed
  · rfl
  · cases failed
  · cases failed

theorem eq_nil_of_comparison (failed : comparison tokens = .error .unexpectedEnd) :
    tokens = [] := by
  simp only [comparison] at failed
  split at failed
  · rfl
  all_goals cases failed

theorem eq_nil_of_boundName (failed : boundName tokens = .error .unexpectedEnd) :
    tokens = [] := by
  simp only [boundName] at failed
  split at failed
  · rfl
  all_goals cases failed

theorem exists_ofKeys (failed : keys tokens = .error .unexpectedEnd) :
    ∃ more found, Fills more ∧ tokens.map Located.token ++ more = Token.ofKeys found := by
  fun_induction keys tokens with
  | case1 offset afterBracket error textFailed =>
      cases failed
      cases eq_nil_of_text textFailed
      exact ⟨[.text "", .closeBracket], [""], by decide, rfl⟩
  | case2 offset afterBracket key afterKey textRead error closeFailed =>
      cases failed
      cases eq_nil_of_expect closeFailed
      rcases text_eq_ok_iff.mp textRead with ⟨keyOffset, rfl⟩
      exact ⟨[.closeBracket], [key], by decide, rfl⟩
  | case3 offset afterBracket key afterKey textRead afterMember closeRead error again ih =>
      cases failed
      rcases text_eq_ok_iff.mp textRead with ⟨keyOffset, rfl⟩
      rcases expect_eq_ok_iff.mp closeRead with ⟨closeOffset, rfl⟩
      rcases ih again with ⟨more, found, fills, spelled⟩
      exact ⟨more, key :: found, fills, by simp [Token.ofKeys, spelled]⟩
  | case4 => cases failed
  | case5 => cases failed

theorem exists_ofListed (failed : names tokens = .error .unexpectedEnd) :
    ∃ more listed, Fills more ∧ tokens.map Located.token ++ more = Token.ofListed listed := by
  fun_induction names tokens with
  | case1 offset afterComma error textFailed =>
      cases failed
      cases eq_nil_of_text textFailed
      exact ⟨[.text ""], [""], by decide, rfl⟩
  | case2 offset afterComma name afterName textRead error again ih =>
      cases failed
      rcases text_eq_ok_iff.mp textRead with ⟨nameOffset, rfl⟩
      rcases ih again with ⟨more, listed, fills, spelled⟩
      exact ⟨more, name :: listed, fills, by simp [Token.ofListed, spelled]⟩
  | case3 => cases failed
  | case4 => cases failed

variable {bindings : Bindings} {scope : List (String × Nat)} {slots : Array Slot}

/-- What the bindings of a point where an operand stands are like. -/
structure Named (scope : List (String × Nat)) (bindings : Bindings) : Prop where
  names : scope.map Prod.fst = bindings.map Prod.fst
  /-- The root has a name, though it may be hidden by another binding of that name. -/
  root : ∃ base, bindings.lookup rootName = some base

theorem exists_derivesPath_of_pathFrom (named : Named scope bindings) {offset : Nat}
    {name : String}
    (failed : pathFrom scope slots offset name tokens = .error .unexpectedEnd) :
    ∃ more reached, Fills more ∧
      DerivesPath bindings (.name name :: (tokens.map Located.token ++ more)) reached := by
  simp only [pathFrom, resolve] at failed
  cases bound : scope.lookup name with
  | none =>
      rw [bound] at failed
      cases failed
  | some slot =>
      simp only [bound] at failed
      split at failed
      · rename_i keysFailed
        cases failed
        rcases exists_ofKeys keysFailed with ⟨more, found, fills, spelled⟩
        rcases exists_lookup named.names bound with ⟨base, known⟩
        refine ⟨more, base ++ found, fills, ?_⟩
        rw [spelled]
        exact .path found known
      · cases failed

theorem exists_derivesPath (named : Named scope bindings)
    (failed : path scope slots tokens = .error .unexpectedEnd) :
    ∃ more reached, Fills more ∧
      DerivesPath bindings (tokens.map Located.token ++ more) reached := by
  simp only [path] at failed
  split at failed
  · rcases named.root with ⟨base, bound⟩
    exact ⟨[.name rootName], base ++ [], by decide, .path [] bound⟩
  · exact exists_derivesPath_of_pathFrom named failed
  · cases failed

/-- The tokens can be completed to an atom. -/
def CompletesAtom (bindings : Bindings) (tokens : List Token) : Prop :=
  ∃ more formula, Fills more ∧ Derives .atom bindings (tokens ++ more) formula

theorem completesAtom_of_derives {tokens whole : List Token} {formula : Formula}
    (derived : Derives .atom bindings whole formula) {more : List Token} (fills : Fills more)
    (completed : tokens ++ more = whole) : CompletesAtom bindings tokens :=
  ⟨more, formula, fills, completed ▸ derived⟩

theorem completesAtom_kindTest (named : Named scope bindings)
    (failed : kindTest scope slots tokens = .error .unexpectedEnd) :
    CompletesAtom bindings (.reserved .typeofWord :: tokens.map Located.token) := by
  let name : Token := .text Json.Kind.string.spelling
  simp only [kindTest] at failed
  split at failed
  · rename_i pathFailed
    cases failed
    rcases exists_derivesPath named pathFailed with ⟨more, reached, fills, derived⟩
    have fillsAll : Fills (more ++ [.same, name]) := fills_append fills (by decide)
    exact completesAtom_of_derives (.isKind .string derived) fillsAll (by simp [name])
  rename_i pathRead
  rcases derives_of_path named.names pathRead with ⟨consumed, reached, rfl, derived⟩
  split at failed
  · rename_i sameFailed
    cases failed
    cases eq_nil_of_expect sameFailed
    have fills : Fills [.same, name] := by decide
    exact completesAtom_of_derives (.isKind .string derived) fills (by simp [name])
  rename_i sameRead
  rcases expect_eq_ok_iff.mp sameRead with ⟨sameOffset, rfl⟩
  split at failed
  · rename_i textFailed
    cases failed
    cases eq_nil_of_text textFailed
    have fills : Fills [name] := by decide
    exact completesAtom_of_derives (.isKind .string derived) fills (by simp [name])
  · split at failed <;> cases failed

theorem completesAtom_onlyKeysTest (named : Named scope bindings)
    (failed : onlyKeysTest scope slots tokens = .error .unexpectedEnd) :
    CompletesAtom bindings (.reserved .onlyKeysWord :: tokens.map Located.token) := by
  simp only [onlyKeysTest] at failed
  split at failed
  · rename_i openFailed
    cases failed
    cases eq_nil_of_expect openFailed
    rcases named.root with ⟨base, bound⟩
    have fills : Fills [.openParen, .name rootName, .closeParen] := by decide
    exact completesAtom_of_derives (.onlyKeys [] (.path [] bound)) fills rfl
  rename_i openRead
  rcases expect_eq_ok_iff.mp openRead with ⟨openOffset, rfl⟩
  split at failed
  · rename_i pathFailed
    cases failed
    rcases exists_derivesPath named pathFailed with ⟨more, reached, fills, derived⟩
    have fillsAll : Fills (more ++ [.closeParen]) := fills_append fills (by decide)
    exact completesAtom_of_derives (.onlyKeys [] derived) fillsAll (by simp [Token.ofListed])
  rename_i pathRead
  rcases derives_of_path named.names pathRead with ⟨consumed, reached, rfl, derived⟩
  split at failed
  · rename_i namesFailed
    cases failed
    rcases exists_ofListed namesFailed with ⟨more, listed, fills, spelled⟩
    have fillsAll : Fills (more ++ [.closeParen]) := fills_append fills (by decide)
    exact completesAtom_of_derives (.onlyKeys listed derived) fillsAll (by simp [← spelled])
  rename_i listed afterNames namesRead
  rcases exists_of_names namesRead with ⟨consumedNames, rfl, spelled⟩
  split at failed
  · rename_i closeFailed
    cases failed
    cases eq_nil_of_expect closeFailed
    have fills : Fills [.closeParen] := by decide
    exact completesAtom_of_derives (.onlyKeys listed derived) fills (by simp [spelled])
  · cases failed

theorem completesAtom_comparisonTest (named : Named scope bindings) {offset : Nat} {name : String}
    (failed : comparisonTest scope slots offset name tokens = .error .unexpectedEnd) :
    CompletesAtom bindings (.name name :: tokens.map Located.token) := by
  simp only [comparisonTest] at failed
  split at failed
  · rename_i pathFailed
    cases failed
    rcases exists_derivesPath_of_pathFrom named pathFailed with ⟨more, reached, fills, derived⟩
    have fillsAll : Fills (more ++ [.same, .reserved .nullWord]) := fills_append fills (by decide)
    exact completesAtom_of_derives (.isNull derived) fillsAll (by simp)
  rename_i pathRead
  rcases derives_of_pathFrom named.names pathRead with ⟨consumed, reached, rfl, derived⟩
  split at failed
  · rename_i sameFailed
    cases failed
    cases eq_nil_of_expect sameFailed
    have fills : Fills [.same, .reserved .nullWord] := by decide
    exact completesAtom_of_derives (.isNull derived) fills (by simp)
  rename_i sameRead
  rcases expect_eq_ok_iff.mp sameRead with ⟨sameOffset, rfl⟩
  split at failed
  · rename_i comparisonFailed
    cases failed
    cases eq_nil_of_comparison comparisonFailed
    have fills : Fills [.reserved .nullWord] := by decide
    exact completesAtom_of_derives (.isNull derived) fills (by simp)
  · cases failed

theorem completesAtom_hasTest (named : Named scope bindings) {key : String}
    (failed : hasTest scope slots key tokens = .error .unexpectedEnd) :
    CompletesAtom bindings (.text key :: tokens.map Located.token) := by
  simp only [hasTest] at failed
  split at failed
  · rename_i inFailed
    cases failed
    cases eq_nil_of_expect inFailed
    rcases named.root with ⟨base, bound⟩
    have fills : Fills [.reserved .inWord, .name rootName] := by decide
    exact completesAtom_of_derives (.has key (.path [] bound)) fills rfl
  rename_i inRead
  rcases expect_eq_ok_iff.mp inRead with ⟨inOffset, rfl⟩
  split at failed
  · rename_i pathFailed
    cases failed
    rcases exists_derivesPath named pathFailed with ⟨more, reached, fills, derived⟩
    exact completesAtom_of_derives (.has key derived) fills (by simp)
  · cases failed

theorem completesAtom_atom (named : Named scope bindings) {head : Located}
    (failed : atom scope slots head tokens = .error .unexpectedEnd) :
    CompletesAtom bindings ((head :: tokens).map Located.token) := by
  simp only [atom] at failed
  rw [List.map_cons]
  split at failed
  case h_1 | h_2 => cases failed
  case h_3 word => exact word ▸ completesAtom_kindTest named failed
  case h_4 word => exact word ▸ completesAtom_onlyKeysTest named failed
  case h_5 first word => exact word ▸ completesAtom_comparisonTest named failed
  case h_6 key word => exact word ▸ completesAtom_hasTest named failed
  case h_7 => cases failed

/-- What is read of a binding can be completed up to the parenthesis that opens its scope. -/
theorem exists_binding (named : Named scope bindings)
    (failed : binding scope slots tokens = .error .unexpectedEnd) :
    ∃ more name path reached, Fills more ∧ DerivesPath bindings path reached ∧
      tokens.map Located.token ++ more =
        .name name :: .assign :: path ++ [.reserved .inWord, .openParen] := by
  rcases named.root with ⟨base, bound⟩
  have root : DerivesPath bindings (.name rootName :: Token.ofKeys []) (base ++ []) :=
    .path [] bound
  simp only [binding] at failed
  split at failed
  · rename_i nameFailed
    cases failed
    cases eq_nil_of_boundName nameFailed
    have fills : Fills
        [.name rootName, .assign, .name rootName, .reserved .inWord, .openParen] := by
      decide
    exact ⟨_, rootName, _, _, fills, root, rfl⟩
  rename_i name afterName nameRead
  rcases boundName_eq_ok_iff.mp nameRead with ⟨nameOffset, rfl⟩
  split at failed
  · rename_i assignFailed
    cases failed
    cases eq_nil_of_expect assignFailed
    have fills : Fills [.assign, .name rootName, .reserved .inWord, .openParen] := by decide
    exact ⟨_, name, _, _, fills, root, rfl⟩
  rename_i assignRead
  rcases expect_eq_ok_iff.mp assignRead with ⟨assignOffset, rfl⟩
  split at failed
  · rename_i pathFailed
    cases failed
    rcases exists_derivesPath named pathFailed with ⟨more, reached, fills, derived⟩
    have fillsAll : Fills (more ++ [.reserved .inWord, .openParen]) :=
      fills_append fills (by decide)
    exact ⟨_, name, _, reached, fillsAll, derived, by simp⟩
  rename_i pathRead
  rcases derives_of_path named.names pathRead with ⟨consumed, reached, rfl, derived⟩
  split at failed
  · rename_i inFailed
    cases failed
    cases eq_nil_of_expect inFailed
    have fills : Fills [.reserved .inWord, .openParen] := by decide
    exact ⟨_, name, _, reached, fills, derived, by simp⟩
  rename_i inRead
  rcases expect_eq_ok_iff.mp inRead with ⟨inOffset, rfl⟩
  split at failed
  · rename_i openFailed
    cases failed
    cases eq_nil_of_expect openFailed
    have fills : Fills [.openParen] := by decide
    exact ⟨_, name, _, reached, fills, derived, by simp⟩
  · cases failed

end Parts

/-! ### Waiting operators -/

/-- The tokens can be completed to a check expression. -/
def CompletesExpr (tokens : List Token) : Prop :=
  ∃ more formula, Fills more ∧ IsExpr (tokens ++ more) formula

theorem CompletesExpr.extend {tokens some : List Token} (fills : Fills some)
    (completes : CompletesExpr (tokens ++ some)) : CompletesExpr tokens := by
  rcases completes with ⟨more, formula, fillsMore, derived⟩
  refine ⟨some ++ more, formula, fills_append fills fillsMore, ?_⟩
  rw [← List.append_assoc]
  exact derived

/-- While the operators wait, whatever ends with something that is complete on a level can be
completed. -/
def Finishes (level : Level) (pending : List Pending) : Prop :=
  ∀ (bindings : Bindings) (tokens : List Token),
    Completes level bindings pending tokens → CompletesExpr tokens

section Finish

variable {pending : List Pending}

theorem finishes_unary (finishes : Finishes .expr pending) : Finishes .unary pending := by
  rintro bindings _ ⟨opened, derived⟩
  exact finishes bindings _ (.intro opened (.ofConjunction (.ofUnary derived)))

theorem finishes_nil : Finishes .expr [] := by
  rintro bindings _ ⟨opened, derived⟩
  rename_i formula
  cases opened
  refine ⟨[], formula, by decide, ?_⟩
  rw [List.append_nil]
  exact derived

theorem finishes_not (finishes : Finishes .unary pending) :
    Finishes .unary (.not :: pending) := by
  rintro bindings _ ⟨opened, derived⟩
  cases opened with
  | not opened =>
      rw [List.append_assoc]
      exact finishes bindings _ (.intro opened (.not derived))

theorem finishes_and (finishes : Loose pending → Finishes .expr pending) :
    Finishes .unary (.and :: pending) := by
  rintro bindings _ ⟨opened, derived⟩
  cases opened with
  | and opened loose left =>
      rw [List.append_assoc, List.append_assoc]
      exact finishes loose bindings _ (.intro opened (.ofConjunction (.and left derived)))

/-- An alternative is added. -/
theorem finishes_question (finishes : Loose pending → Finishes .expr pending) :
    Finishes .expr (.question :: pending) := by
  rintro bindings _ ⟨opened, whenTrue⟩
  cases opened with
  | question opened loose test =>
      have otherwise : Derives .expr bindings [.reserved .trueWord] (.constant true) :=
        .ofConjunction (.ofUnary (.ofAtom .isTrue))
      have conditional := Completes.intro opened (.cond test whenTrue otherwise)
      have fills : Fills [.colon, .reserved .trueWord] := by decide
      apply CompletesExpr.extend fills
      exact finishes loose bindings _ (by simpa using conditional)

theorem finishes_colon (finishes : Loose pending → Finishes .expr pending) :
    Finishes .expr (.colon :: pending) := by
  rintro bindings _ ⟨opened, whenFalse⟩
  cases opened with
  | colon opened whenTrue =>
      -- the test stands in front of the `?` that waits below
      cases opened with
      | question opened loose test =>
          have conditional := Completes.intro opened (.cond test whenTrue whenFalse)
          exact finishes loose bindings _ (by simpa using conditional)

/-- The group is closed. -/
theorem finishes_group (finishes : Finishes .unary pending) :
    Finishes .expr (.group :: pending) := by
  rintro bindings _ ⟨opened, derived⟩
  cases opened with
  | group opened =>
      have group := Completes.intro opened (.ofAtom (.group derived))
      have fills : Fills [.closeParen] := by decide
      apply CompletesExpr.extend fills
      exact finishes bindings _ (by simpa using group)

theorem finishes_binding (finishes : Finishes .unary pending) :
    Finishes .expr (.binding :: pending) := by
  rintro bindings _ ⟨opened, derived⟩
  cases opened with
  | @binding outer _ _ _ _ name opened bound =>
      have group := Completes.intro opened (.ofAtom (.binding name bound derived))
      have fills : Fills [.closeParen] := by decide
      apply CompletesExpr.extend fills
      exact finishes outer _ (by simpa using group)

/-- Whatever operators wait, what has been read can be completed. Behind `!` and `&&` only operands
can stand, behind the others whole expressions. -/
theorem finishes (pending : List Pending) :
    Finishes .unary pending ∧ (Loose pending → Finishes .expr pending) := by
  induction pending with
  | nil => exact ⟨finishes_unary finishes_nil, fun _ => finishes_nil⟩
  | cons top pending ih =>
      rcases ih with ⟨unary, expr⟩
      cases top with
      | not => exact ⟨finishes_not unary, fun loose => absurd (loose _ rfl) (by decide)⟩
      | and => exact ⟨finishes_and expr, fun loose => absurd (loose _ rfl) (by decide)⟩
      | question =>
          exact ⟨finishes_unary (finishes_question expr), fun _ => finishes_question expr⟩
      | colon => exact ⟨finishes_unary (finishes_colon expr), fun _ => finishes_colon expr⟩
      | group => exact ⟨finishes_unary (finishes_group unary), fun _ => finishes_group unary⟩
      | binding =>
          exact ⟨finishes_unary (finishes_binding unary), fun _ => finishes_binding unary⟩

end Finish

/-! ### Whole expressions -/

section Runs

variable {bindings : Bindings} {pending : List Pending} {tokens : List Token} {state : State}
  {head : Located} {rest : List Located}

theorem Opens.exists_lookup_root (opened : Opens bindings pending tokens) :
    ∃ base, bindings.lookup rootName = some base := by
  induction opened with
  | start => exact ⟨[], by decide⟩
  | @binding bindings pending before path keys name opened bound ih =>
      rcases ih with ⟨base, found⟩
      by_cases same : name = rootName
      · exact ⟨keys, by rw [same, List.lookup_cons_self]⟩
      · refine ⟨base, ?_⟩
        rw [List.lookup_cons, beq_false_of_ne (Ne.symm same)]
        exact found
  | _ => assumption

theorem Opens.completesExpr (opened : Opens bindings pending tokens) : CompletesExpr tokens := by
  have operand : Derives .unary bindings [.reserved .trueWord] (.constant true) := .ofAtom .isTrue
  have fills : Fills [.reserved .trueWord] := by decide
  apply CompletesExpr.extend fills
  exact (finishes pending).1 bindings _ (.intro opened operand)

namespace Reads

theorem completesExpr (reads : Reads bindings state tokens) : CompletesExpr tokens := by
  cases phase : state.phase with
  | operand => exact (reads.opens phase).completesExpr
  | operator => exact (finishes state.pending).1 bindings tokens (reads.completes phase)

/-- If the tokens end inside the operand that a step reads, the operand can be completed, and so can
everything in front of it. -/
theorem completesExpr_of_operandStep (reads : Reads bindings state tokens)
    (phase : state.phase = .operand)
    (failed : Parser.operandStep state head rest = .error .unexpectedEnd) :
    CompletesExpr (tokens ++ (head :: rest).map Located.token) := by
  have opened := reads.opens phase
  have named : Named state.scope bindings := ⟨reads.names, opened.exists_lookup_root⟩
  simp only [Parser.operandStep] at failed
  split at failed
  · cases failed
  · cases failed
  · rename_i isLet
    split at failed
    · rename_i bindingFailed
      cases failed
      rcases exists_binding named bindingFailed with
        ⟨more, name, path, reached, fills, derived, spelled⟩
      apply CompletesExpr.extend fills
      have completed := (Opens.binding name opened derived).completesExpr
      rw [List.map_cons, isLet, List.append_assoc, List.cons_append, spelled]
      simpa using completed
    · cases failed
  · split at failed
    · rename_i atomFailed
      cases failed
      rcases completesAtom_atom named atomFailed with ⟨more, formula, fills, derived⟩
      apply CompletesExpr.extend fills
      rw [List.append_assoc]
      exact (finishes state.pending).1 bindings _ (.intro opened (.ofAtom derived))
    · cases failed

theorem completesExpr_of_step (reads : Reads bindings state tokens)
    (failed : Parser.step state head rest = .error .unexpectedEnd) :
    CompletesExpr (tokens ++ (head :: rest).map Located.token) := by
  simp only [Parser.step] at failed
  split at failed
  · rename_i phase
    exact reads.completesExpr_of_operandStep phase failed
  · split at failed
    · rename_i operatorFailed
      cases failed
      cases operatorStep_error operatorFailed
    · cases failed

theorem completesExpr_of_run (reads : Reads bindings state tokens)
    (failed : Parser.run state rest = .error .unexpectedEnd) :
    CompletesExpr (tokens ++ rest.map Located.token) := by
  fun_induction Parser.run state rest generalizing bindings tokens with
  | case1 state =>
      rw [List.map_nil, List.append_nil]
      exact reads.completesExpr
  | case2 state head tail error stepFailed =>
      cases failed
      exact reads.completesExpr_of_step stepFailed
  | case3 state head tail next rest stepRead ih =>
      rcases reads.step stepRead with ⟨inner, consumed, rfl, reads⟩
      have completed := ih reads failed
      rw [List.append_assoc, ← List.map_append, List.cons_append] at completed
      exact completed

end Reads

end Runs

end Parser

/-- Tokens that end too early can be completed. -/
theorem Expr.exists_isExpr_of_unexpectedEnd {tokens : List Located}
    (failed : ofTokens tokens = .error .unexpectedEnd) :
    ∃ more formula, (∀ token ∈ more, token ∈ Token.fillers) ∧
      IsExpr (tokens.map Located.token ++ more) formula :=
  Parser.Reads.initial.completesExpr_of_run failed

end Check

end JsonShape
