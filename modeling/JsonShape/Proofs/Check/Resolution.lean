import JsonShape.Proofs.Check.Numbering
import JsonShape.Proofs.Check.Operands
import JsonShape.Proofs.Check.Scopes

/-!
# Which slots paths are given

The parser keeps bindings in a list of their own, and takes one off when it meets the mark of a
binding on the stack of waiting operators. `Tracks` says that this list is the bindings of the open
parentheses, each path numbered by its slot, and that the marks stand for those parentheses. Every
step keeps it (`Tracks.step`). So a run gives each path the slot of what it unfolds to, and the
table that it ends with is the first one with those paths interned in order (`Tracks.run`).

The expression that is read tests the slots that tests were given, in order, because an operator
that is applied has all its operands and never changes the order of what they test.
-/

namespace JsonShape

namespace Check

namespace Pending

/-- Whether something is bound in the parenthesis that a mark on the stack stands for. -/
def binds? : Pending → Option Bool
  | .group => some false
  | .binding => some true
  | .not | .and | .question | .colon => none

/-- Applying an operator leaves all tests in place if it has its operands. -/
theorem testedAll_apply {top : Pending} {operands : List Expr}
    (enough : top.arity ≤ operands.length) :
    Expr.testedAll (top.apply operands).reverse = Expr.testedAll operands.reverse := by
  cases top with
  | not =>
      cases operands with
      | nil => rfl
      | cons operand operands => simp [apply, Expr.testedAll_append, Expr.testedAll, Expr.tested]
  | and =>
      rcases operands with _ | ⟨right, _ | ⟨left, operands⟩⟩
      · rfl
      · simp [arity] at enough
      · simp [apply, Expr.testedAll_append, Expr.testedAll]
  | colon =>
      rcases operands with _ | ⟨alternative, _ | ⟨consequent, _ | ⟨condition, operands⟩⟩⟩
      · rfl
      · simp [arity] at enough
      · simp [arity] at enough
      · simp [apply, Expr.testedAll_append, Expr.testedAll, Expr.tested]
  | question | group | binding => rfl

end Pending

namespace Parser

/-- The slots that a step gives to the paths that it reads. -/
def given (state : State) (head : Located) (tail : List Located) : List (Use × Nat) :=
  match state.phase with
  | .operator => []
  | .operand =>
      if head.token = .reserved .letWord then
        match binding state.scope state.slots tail with
        | .ok ((bound, _), _) => [(.binding, bound.2)]
        | .error _ => []
      else
        match atom state.scope state.slots head tail with
        | .ok ((expr, _), _) => expr.tested.map (Prod.mk .test)
        | .error _ => []

/-- The slots that a run gives to the paths that it reads, in order. -/
def givenSlots (state : State) (tokens : List Located) : List (Use × Nat) :=
  match tokens with
  | [] => []
  | head :: tail =>
      match _read : step state head tail with
      | .error _ => []
      | .ok (next, rest) => given state head tail ++ givenSlots next rest
termination_by tokens.length
decreasing_by exact Nat.lt_succ_of_le (length_le_of_step _read)

/-- The slots that were given to paths of tests. -/
def testSlots (given : List (Use × Nat)) : List Nat :=
  given.filterMap fun (use, slot) => if use = .test then some slot else none

/-- What a state knows when the given parentheses are open: the names in scope are bound there, and
the marks on the stack stand for them. -/
structure Tracks (enclosing : Enclosing) (state : State) : Prop where
  interned : Slot.Interned state.slots
  agrees : Agrees state.slots state.scope enclosing.bindings
  marks : state.pending.filterMap Pending.binds? = enclosing.map Option.isSome

/-- The innermost binding ends. -/
theorem Agrees.pop {slots : Array Slot} {scope : List (String × Nat)} {bindings : Bindings}
    {bound : String × List String} (agrees : Agrees slots scope (bound :: bindings)) :
    Agrees slots scope.tail bindings := by
  refine ⟨?_, fun other member => agrees.known other (List.mem_cons_of_mem bound member)⟩
  rw [agrees.scope_eq, List.map_cons, List.tail_cons]

/-! ### Reading paths -/

section Readers

variable {enclosing : Enclosing} {scope : List (String × Nat)} {slots : Array Slot}
  {tokens rest : List Located}

theorem leadingKeys_of_keys {found : List String} (read : keys tokens = .ok (found, rest)) :
    Token.leadingKeys (tokens.map Located.token) = found := by
  fun_induction keys tokens generalizing found rest with
  | case1 => simp at read
  | case2 => simp at read
  | case3 => simp at read
  | case4 offset afterBracket key afterKey textRead afterMember closeRead more tail again ih =>
      simp only [Except.ok.injEq, Prod.mk.injEq] at read
      rcases read with ⟨rfl, rfl⟩
      rcases text_eq_ok_iff.mp textRead with ⟨keyOffset, rfl⟩
      rcases expect_eq_ok_iff.mp closeRead with ⟨closeOffset, rfl⟩
      simp [Token.leadingKeys, ih again]
  | case5 tokens other =>
      simp only [Except.ok.injEq, Prod.mk.injEq] at read
      rcases read with ⟨rfl, rfl⟩
      rcases tokens with _ | ⟨⟨offset, token⟩, tail⟩
      · rfl
      · cases token with
        | openBracket => exact absurd rfl (other offset tail)
        | _ => rfl

/-- A path is given the slot of what it unfolds to. -/
theorem pathFrom_eq_internPath (interned : Slot.Interned slots)
    (agrees : Agrees slots scope enclosing.bindings) {offset : Nat} {name : String}
    {found : Nat × Array Slot}
    (read : pathFrom scope slots offset name tokens = .ok (found, rest)) :
    found = Slot.internPath slots 0
        (Token.unfold enclosing name (tokens.map Located.token)) ∧
      ∃ keys, tokens.map Located.token = Token.ofKeys keys ++ rest.map Located.token := by
  rcases pathFrom_eq_ok_iff.mp read with ⟨slot, members, bound, keysRead, rfl⟩
  rcases exists_lookup agrees.names bound with ⟨base, boundToBase⟩
  have known := agrees.known_of_lookup boundToBase
  have same := agrees.lookup_eq boundToBase
  rw [bound, Option.some.injEq] at same
  constructor
  · have located := Slot.internPath_base interned (known.number_lt interned) members
    rw [known.path_number interned] at located
    rw [Token.unfold, boundToBase, leadingKeys_of_keys keysRead, same]
    exact located
  · rcases exists_of_keys keysRead with ⟨consumed, rfl, spelled⟩
    exact ⟨members, by rw [List.map_append, spelled]⟩

theorem path_eq_internPath (interned : Slot.Interned slots)
    (agrees : Agrees slots scope enclosing.bindings) {found : Nat × Array Slot}
    (read : path scope slots tokens = .ok (found, rest)) :
    ∃ name keys, let later := Token.ofKeys keys ++ rest.map Located.token
      tokens.map Located.token = .name name :: later ∧
        found = Slot.internPath slots 0 (Token.unfold enclosing name later) := by
  rcases path_eq_ok_iff.mp read with ⟨offset, name, later, rfl, laterRead⟩
  rcases pathFrom_eq_internPath interned agrees laterRead with ⟨located, keys, spelled⟩
  exact ⟨name, keys, congrArg (Token.name name :: ·) spelled, spelled ▸ located⟩

/-- What the reading of an operand that is no group has to do with the paths in its tokens. -/
def Mentions (enclosing : Enclosing) (slots : Array Slot) (tokens rest : List Token)
    (found : Expr × Array Slot) : Prop :=
  ∃ paths : List (List String),
    Token.unfolded enclosing none tokens =
      paths.map (Prod.mk .test) ++ Token.unfolded enclosing none rest ∧
    found.2 = Slot.internPaths slots paths ∧ found.1.tested = paths.map (Slot.number found.2)

theorem mentions_constant (value : Bool) {passed left : List Token}
    (walked : Token.unfolded enclosing none passed = Token.unfolded enclosing none left) :
    Mentions enclosing slots passed left (.constant value, slots) :=
  ⟨[], walked, rfl, rfl⟩

theorem mentions_test (interned : Slot.Interned slots) {path : List String} {asked : Test}
    {found : Nat × Array Slot} {passed left : List Token}
    (located : found = Slot.internPath slots 0 path)
    (walked : Token.unfolded enclosing none passed =
      (.test, path) :: Token.unfolded enclosing none left) :
    Mentions enclosing slots passed left (.test found.1 asked, found.2) := by
  have numbered := (Slot.locates_number interned path).number_eq
  subst located
  refine ⟨[path], walked, rfl, ?_⟩
  change [Slot.number slots path] = [Slot.number (Slot.internPath slots 0 path).2 path]
  rw [numbered]

theorem mentions_kindTest (interned : Slot.Interned slots)
    (agrees : Agrees slots scope enclosing.bindings) {found : Expr × Array Slot}
    (read : kindTest scope slots tokens = .ok (found, rest)) :
    Mentions enclosing slots (.reserved .typeofWord :: tokens.map Located.token)
      (rest.map Located.token) found := by
  rcases kindTest_eq_ok_iff.mp read with ⟨target, sameOffset, textOffset, kind, pathRead, rfl⟩
  rcases path_eq_internPath interned agrees pathRead with ⟨name, keys, spelled, located⟩
  apply mentions_test interned located
  simp [spelled, Token.unfolded, Token.unfolded_ofKeys]

theorem mentions_onlyKeysTest (interned : Slot.Interned slots)
    (agrees : Agrees slots scope enclosing.bindings) {found : Expr × Array Slot}
    (read : onlyKeysTest scope slots tokens = .ok (found, rest)) :
    Mentions enclosing slots (.reserved .onlyKeysWord :: tokens.map Located.token)
      (rest.map Located.token) found := by
  rcases onlyKeysTest_eq_ok_iff.mp read with
    ⟨openOffset, afterOpen, target, afterPath, listed, closeOffset, rfl, pathRead, namesRead, rfl⟩
  rcases exists_of_names namesRead with ⟨consumedNames, rfl, spelledNames⟩
  -- nothing is bound in the parentheses of the test itself
  have inside : Agrees slots scope (Enclosing.bindings (none :: enclosing)) := agrees
  rcases path_eq_internPath interned inside pathRead with ⟨name, keys, spelled, located⟩
  apply mentions_test interned located
  simp [spelled, spelledNames, Token.unfolded, Token.unfolded_ofKeys, Token.unfolded_ofListed]

theorem mentions_comparisonTest (interned : Slot.Interned slots)
    (agrees : Agrees slots scope enclosing.bindings) {offset : Nat} {name : String}
    {found : Expr × Array Slot}
    (read : comparisonTest scope slots offset name tokens = .ok (found, rest)) :
    Mentions enclosing slots (.name name :: tokens.map Located.token) (rest.map Located.token)
      found := by
  rcases comparisonTest_eq_ok_iff.mp read with
    ⟨target, sameOffset, afterSame, asked, pathRead, comparisonRead, rfl⟩
  rcases comparison_eq_ok_iff.mp comparisonRead with ⟨wordOffset, word, rfl, meaning⟩
  rcases pathFrom_eq_internPath interned agrees pathRead with ⟨located, keys, spelled⟩
  apply mentions_test interned located
  rcases meaning with ⟨rfl, -⟩ | ⟨rfl, -⟩
  · simp [spelled, Token.unfolded, Token.unfolded_ofKeys]
  · simp [spelled, Token.unfolded, Token.unfolded_ofKeys]

theorem mentions_hasTest (interned : Slot.Interned slots)
    (agrees : Agrees slots scope enclosing.bindings) {key : String} {found : Expr × Array Slot}
    (read : hasTest scope slots key tokens = .ok (found, rest)) :
    Mentions enclosing slots (.text key :: tokens.map Located.token) (rest.map Located.token)
      found := by
  rcases hasTest_eq_ok_iff.mp read with ⟨inOffset, later, target, rfl, pathRead, rfl⟩
  rcases path_eq_internPath interned agrees pathRead with ⟨name, keys, spelled, located⟩
  apply mentions_test interned located
  simp [spelled, Token.unfolded, Token.unfolded_ofKeys]

theorem mentions_atom (interned : Slot.Interned slots)
    (agrees : Agrees slots scope enclosing.bindings) {head : Located} {found : Expr × Array Slot}
    (read : atom scope slots head tokens = .ok (found, rest)) :
    Mentions enclosing slots ((head :: tokens).map Located.token) (rest.map Located.token)
      found := by
  simp only [atom] at read
  rw [List.map_cons]
  split at read
  case h_1 word =>
    cases read
    exact mentions_constant true (by simp [word, Token.unfolded])
  case h_2 word =>
    cases read
    exact mentions_constant false (by simp [word, Token.unfolded])
  case h_3 word => exact word ▸ mentions_kindTest interned agrees read
  case h_4 word => exact word ▸ mentions_onlyKeysTest interned agrees read
  case h_5 first word => exact word ▸ mentions_comparisonTest interned agrees read
  case h_6 key word => exact word ▸ mentions_hasTest interned agrees read
  case h_7 => simp at read

/-- A binding is given the slot of its path, which unfolds outside of the binding. -/
theorem binding_eq_internPath (interned : Slot.Interned slots)
    (agrees : Agrees slots scope enclosing.bindings) {found : (String × Nat) × Array Slot}
    (read : binding scope slots tokens = .ok (found, rest)) :
    ∃ name path, found = ((name, Slot.number slots path), (Slot.internPath slots 0 path).2) ∧
      Token.unfolded enclosing none (.reserved .letWord :: tokens.map Located.token) =
        (.binding, path) ::
          Token.unfolded (some (name, path) :: enclosing) none (rest.map Located.token) := by
  rcases binding_eq_ok_iff.mp read with
    ⟨nameOffset, name, assignOffset, later, target, inOffset, openOffset, rfl, pathRead, rfl⟩
  rcases path_eq_internPath interned agrees pathRead with ⟨first, keys, spelled, rfl⟩
  refine ⟨name, _, rfl, ?_⟩
  simp [spelled, Token.unfolded, Token.unfolded_ofKeys]

end Readers

/-! ### Applying operators -/

theorem testedAll_reduce {condition : Pending → Bool}
    (operatorsOnly : ∀ top, condition top = true → top.isComplete = true) {pending : List Pending}
    {operands : List Expr} (fits : operands.length = held pending + 1) :
    Expr.testedAll (reduce condition pending operands).2.reverse =
      Expr.testedAll operands.reverse := by
  induction pending generalizing operands with
  | nil => rfl
  | cons top pending ih =>
      cases applied : condition top with
      | false => rw [reduce_of_not applied]
      | true =>
          rcases fits_apply (operatorsOnly top applied) fits with ⟨enough, fitsAfter⟩
          rw [reduce_cons applied, ih fitsAfter, Pending.testedAll_apply enough]

theorem marks_reduce {condition : Pending → Bool}
    (operatorsOnly : ∀ top, condition top = true → top.binds? = none) (pending : List Pending)
    (operands : List Expr) :
    (reduce condition pending operands).1.filterMap Pending.binds? =
      pending.filterMap Pending.binds? := by
  rcases exists_applied condition pending operands with ⟨applied, split, allApplied⟩
  have noMark : applied.filterMap Pending.binds? = [] :=
    List.filterMap_eq_nil_iff.mpr fun top member => operatorsOnly top (allApplied top member)
  have marks := congrArg (List.filterMap Pending.binds?) split
  rw [List.filterMap_append, noMark, List.nil_append] at marks
  exact marks.symm

theorem binds?_of_isComplete (top : Pending) (complete : top.isComplete = true) :
    top.binds? = none := by
  cases top with
  | not | and | colon => rfl
  | question | group | binding => cases complete

theorem binds?_of_isLogical (top : Pending) (logical : top.isLogical = true) :
    top.binds? = none :=
  binds?_of_isComplete top (isComplete_of_isLogical top logical)

/-! ### What steps have in common -/

/-- A path that is mentioned, and the slot that spells it. -/
def numbered (slots : Array Slot) (mention : Use × List String) : Use × Nat :=
  (mention.1, Slot.number slots mention.2)

/-- Reading has come from one state to another, past tokens that mention some paths: those have got
slots, and the tests among them are behind the other tests. -/
structure Advances (state next : State) (mentions : List (Use × List String))
    (given : List (Use × Nat)) : Prop where
  slots : next.slots = Slot.internPaths state.slots (mentions.map Prod.snd)
  given_eq : given = mentions.map (numbered next.slots)
  tested : Expr.testedAll next.operands.reverse =
    Expr.testedAll state.operands.reverse ++ testSlots given

namespace Advances

theorem refl (state : State) : Advances state state [] [] :=
  ⟨rfl, rfl, (List.append_nil _).symm⟩

/-- Paths keep their slots when more of them are read. -/
theorem trans {first second third : State} {mentions more : List (Use × List String)}
    {given givenMore : List (Use × Nat)} (earlier : Advances first second mentions given)
    (interned : Slot.Interned first.slots) (later : Advances second third more givenMore) :
    Advances first third (mentions ++ more) (given ++ givenMore) := by
  rcases Slot.internPaths_spec interned (mentions.map Prod.snd) with ⟨internedSecond, -, known⟩
  rcases Slot.internPaths_spec internedSecond (more.map Prod.snd) with ⟨internedThird, grown, -⟩
  rw [← earlier.slots] at internedSecond internedThird grown known
  rw [← later.slots] at internedThird grown
  refine ⟨?_, ?_, ?_⟩
  · rw [later.slots, earlier.slots, List.map_append, Slot.internPaths_append]
  · rw [earlier.given_eq, later.given_eq, List.map_append]
    congr 1
    apply List.map_congr_left
    intro mention mentioned
    have same := (known _ (List.mem_map_of_mem mentioned)).number_eq internedSecond internedThird
      grown
    rw [numbered, numbered, same]
  · rw [later.tested, earlier.tested, List.append_assoc, testSlots, testSlots, testSlots,
      List.filterMap_append]

end Advances

theorem givenSlots_of_step {state next : State} {head : Located} {tail rest : List Located}
    (read : step state head tail = .ok (next, rest)) :
    givenSlots state (head :: tail) = given state head tail ++ givenSlots next rest := by
  rw [givenSlots]
  split
  · rename_i failed
    rw [read] at failed
    cases failed
  · rename_i again
    rw [read] at again
    cases again
    rfl

theorem eq_of_finish {state : State} (fits : state.Fits) {found : Expr × Array Slot}
    (read : finish state = .ok found) :
    found.2 = state.slots ∧ found.1.tested = Expr.testedAll state.operands.reverse := by
  simp only [finish] at read
  split at read
  · rename_i phase stacked
    cases read
    have tested := testedAll_reduce (fun _ complete => complete) (fits.length_operands phase)
    rw [stacked] at tested
    exact ⟨rfl, by simpa [Expr.testedAll] using tested⟩
  · cases read

theorem testSlots_map_test (slots : List Nat) : testSlots (slots.map (Prod.mk .test)) = slots := by
  simp [testSlots, List.filterMap_map]

theorem advances_atom {state : State} {found : Expr × Array Slot} {paths : List (List String)}
    (slots : found.2 = Slot.internPaths state.slots paths)
    (tested : found.1.tested = paths.map (Slot.number found.2)) :
    Advances state
      { state with
        phase := .operator
        operands := found.1 :: state.operands
        slots := found.2 }
      (paths.map (Prod.mk .test)) (found.1.tested.map (Prod.mk .test)) := by
  refine ⟨?_, ?_, ?_⟩
  · rw [List.map_map]
    exact slots.trans (congrArg _ (List.map_id paths).symm)
  · rw [tested, List.map_map, List.map_map]
    rfl
  · rw [testSlots_map_test, List.reverse_cons, Expr.testedAll_append]
    simp [Expr.testedAll]

/-- A step has passed tokens that mention some paths, and what a state knows holds of the next one
again, with the parentheses that are open then. -/
def StepsTo (enclosing : Enclosing) (state next : State) (tokens rest : List Token)
    (given : List (Use × Nat)) : Prop :=
  ∃ inner mentions, Tracks inner next ∧
    Token.unfolded enclosing none tokens = mentions ++ Token.unfolded inner none rest ∧
    Advances state next mentions given

/-- A step that reads no path. -/
theorem Tracks.stepsTo {enclosing inner : Enclosing} {state next : State} {tokens rest : List Token}
    (kept : Tracks inner next)
    (walked : Token.unfolded enclosing none tokens = Token.unfolded inner none rest)
    (slots : next.slots = state.slots)
    (tested : Expr.testedAll next.operands.reverse = Expr.testedAll state.operands.reverse) :
    StepsTo enclosing state next tokens rest [] :=
  ⟨inner, [], kept, walked, slots, rfl, tested.trans (List.append_nil _).symm⟩

namespace Tracks

variable {enclosing : Enclosing} {state next : State} {head : Located}
  {tail rest : List Located}

theorem initial : Tracks [] .initial :=
  ⟨.initial, .initial, rfl⟩

/-! ### Steps that read an operand -/

theorem openParen (tracks : Tracks enclosing state) :
    Tracks (none :: enclosing) { state with pending := .group :: state.pending } := by
  refine ⟨tracks.interned, tracks.agrees, ?_⟩
  rw [List.filterMap_cons, List.map_cons, tracks.marks]
  rfl

theorem bind (tracks : Tracks enclosing state) (phase : state.phase = .operand) (name : String)
    (path : List String) :
    Tracks (some (name, path) :: enclosing)
      { state with
        pending := .binding :: state.pending
        scope := (name, (Slot.internPath state.slots 0 path).1) :: state.scope
        slots := (Slot.internPath state.slots 0 path).2 } := by
  have ready : Ready enclosing.bindings state := ⟨phase, tracks.interned, tracks.agrees⟩
  have bound := ready.bind (.binding :: state.pending) name path
  refine ⟨bound.interned, bound.agrees, ?_⟩
  rw [List.filterMap_cons, List.map_cons, tracks.marks]
  rfl

theorem binding (tracks : Tracks enclosing state) (phase : state.phase = .operand)
    {found : (String × Nat) × Array Slot}
    (read : Parser.binding state.scope state.slots tail = .ok (found, rest)) :
    StepsTo enclosing state
      { state with
        pending := .binding :: state.pending
        scope := found.1 :: state.scope
        slots := found.2 }
      (.reserved .letWord :: tail.map Located.token) (rest.map Located.token)
      [(.binding, found.1.2)] := by
  rcases binding_eq_internPath tracks.interned tracks.agrees read with ⟨name, path, rfl, walked⟩
  have located := Slot.locates_number tracks.interned path
  refine ⟨some (name, path) :: enclosing, [(.binding, path)], tracks.bind phase name path, walked,
    rfl, ?_, (List.append_nil _).symm⟩
  rw [List.map_singleton, numbered, located.number_eq]

theorem atom (tracks : Tracks enclosing state) {found : Expr × Array Slot}
    (read : Parser.atom state.scope state.slots head tail = .ok (found, rest)) :
    StepsTo enclosing state
      { state with
        phase := .operator
        operands := found.1 :: state.operands
        slots := found.2 }
      ((head :: tail).map Located.token) (rest.map Located.token)
      (found.1.tested.map (Prod.mk .test)) := by
  rcases mentions_atom tracks.interned tracks.agrees read with ⟨paths, walked, located, tested⟩
  rcases Slot.internPaths_spec tracks.interned paths with ⟨interned, grown, -⟩
  have agrees := tracks.agrees.grow tracks.interned interned grown
  rw [← located] at interned agrees
  exact ⟨enclosing, paths.map (Prod.mk .test), ⟨interned, agrees, tracks.marks⟩, walked,
    advances_atom located tested⟩

theorem operandStep (tracks : Tracks enclosing state) (phase : state.phase = .operand)
    (read : Parser.operandStep state head tail = .ok (next, rest)) :
    StepsTo enclosing state next ((head :: tail).map Located.token) (rest.map Located.token)
      (given state head tail) := by
  simp only [Parser.operandStep] at read
  split at read
  · rename_i token
    cases read
    have nothing : given state head tail = [] := by simp [given, phase, token, Parser.atom]
    have kept : Tracks enclosing { state with pending := .not :: state.pending } :=
      ⟨tracks.interned, tracks.agrees, tracks.marks⟩
    rw [nothing]
    exact kept.stepsTo (by simp [token, Token.unfolded]) rfl rfl
  · rename_i token
    cases read
    have nothing : given state head tail = [] := by simp [given, phase, token, Parser.atom]
    rw [nothing]
    exact tracks.openParen.stepsTo (by simp [token, Token.unfolded]) rfl rfl
  · rename_i token
    split at read
    · cases read
    · rename_i bound slots afterBinding bindingRead
      cases read
      have bindingGiven : given state head tail = [(.binding, bound.2)] := by
        simp [given, phase, token, bindingRead]
      rw [bindingGiven, List.map_cons, token]
      exact tracks.binding phase bindingRead
  · split at read
    · cases read
    · rename_i expr slots afterAtom atomRead
      cases read
      have other : head.token ≠ .reserved .letWord := by
        intro token
        simp [Parser.atom, token] at atomRead
      have atomGiven : given state head tail = expr.tested.map (Prod.mk .test) := by
        simp [given, phase, other, atomRead]
      rw [atomGiven]
      exact tracks.atom atomRead

/-! ### Steps that read an operator -/

theorem pushLoose (tracks : Tracks enclosing state) (fits : state.Fits)
    (phase : state.phase = .operator) (operator : Pending) (noMark : operator.binds? = none)
    {tokens rest : List Token}
    (walked : Token.unfolded enclosing none tokens = Token.unfolded enclosing none rest) :
    StepsTo enclosing state (Parser.pushLoose state operator) tokens rest [] := by
  have marks := marks_reduce binds?_of_isLogical state.pending state.operands
  have kept : Tracks enclosing (Parser.pushLoose state operator) :=
    ⟨tracks.interned, tracks.agrees,
      (List.filterMap_cons_none noMark).trans (marks.trans tracks.marks)⟩
  exact kept.stepsTo walked rfl
    (testedAll_reduce isComplete_of_isLogical (fits.length_operands phase))

/-- The parenthesis that is closed is the innermost one. -/
theorem exists_of_mark (tracks : Tracks enclosing state) {mark : Pending} {binds : Bool}
    {pending : List Pending} {operands : List Expr} (isMark : mark.binds? = some binds)
    (stacked : reduce Pending.isComplete state.pending state.operands =
      (mark :: pending, operands)) :
    ∃ bound outer, enclosing = bound :: outer ∧ bound.isSome = binds ∧
      pending.filterMap Pending.binds? = outer.map Option.isSome := by
  have marks := marks_reduce binds?_of_isComplete state.pending state.operands
  rw [stacked, tracks.marks, List.filterMap_cons_some isMark] at marks
  rcases List.map_eq_cons_iff.mp marks.symm with ⟨bound, outer, rfl, same, others⟩
  exact ⟨bound, outer, rfl, same, others.symm⟩

theorem closeGroup (tracks : Tracks enclosing state) {pending : List Pending}
    {operands : List Expr}
    (stacked : reduce Pending.isComplete state.pending state.operands =
      (.group :: pending, operands)) :
    Tracks enclosing.tail { state with pending, operands } := by
  rcases tracks.exists_of_mark rfl stacked with ⟨bound, outer, rfl, noBinding, marks⟩
  rw [Option.isSome_eq_false_iff, Option.isNone_iff_eq_none] at noBinding
  subst noBinding
  exact ⟨tracks.interned, tracks.agrees, marks⟩

theorem closeBinding (tracks : Tracks enclosing state) {pending : List Pending}
    {operands : List Expr}
    (stacked : reduce Pending.isComplete state.pending state.operands =
      (.binding :: pending, operands)) :
    Tracks enclosing.tail { state with pending, operands, scope := state.scope.tail } := by
  rcases tracks.exists_of_mark rfl stacked with ⟨bound, outer, rfl, isBinding, marks⟩
  rcases Option.isSome_iff_exists.mp isBinding with ⟨binding, rfl⟩
  exact ⟨tracks.interned, tracks.agrees.pop, marks⟩

theorem operatorStep (tracks : Tracks enclosing state) (fits : state.Fits)
    (phase : state.phase = .operator) (read : Parser.operatorStep state head = .ok next)
    (rest : List Token) : StepsTo enclosing state next (head.token :: rest) rest [] := by
  have tested := testedAll_reduce (fun _ complete => complete) (fits.length_operands phase)
  simp only [Parser.operatorStep] at read
  split at read
  · rename_i token
    cases read
    exact tracks.pushLoose fits phase .and rfl (by simp [token, Token.unfolded])
  · rename_i token
    cases read
    exact tracks.pushLoose fits phase .question rfl (by simp [token, Token.unfolded])
  · rename_i token
    split at read
    · rename_i pending operands stacked
      cases read
      have marks := marks_reduce binds?_of_isComplete state.pending state.operands
      rw [stacked] at marks tested
      have kept : Tracks enclosing
          { state with phase := .operand, pending := .colon :: pending, operands } :=
        ⟨tracks.interned, tracks.agrees, marks.trans tracks.marks⟩
      exact kept.stepsTo (by simp [token, Token.unfolded]) rfl tested
    · cases read
  · rename_i token
    split at read
    · rename_i pending operands stacked
      cases read
      rw [stacked] at tested
      exact (tracks.closeGroup stacked).stepsTo (by simp [token, Token.unfolded]) rfl tested
    · rename_i pending operands stacked
      cases read
      rw [stacked] at tested
      exact (tracks.closeBinding stacked).stepsTo (by simp [token, Token.unfolded]) rfl tested
    · cases read
  · cases read

/-! ### Runs -/

/-- What a step does: it passes tokens that mention some paths and gives those paths their slots. -/
theorem step (tracks : Tracks enclosing state) (fits : state.Fits)
    (read : Parser.step state head tail = .ok (next, rest)) :
    StepsTo enclosing state next ((head :: tail).map Located.token) (rest.map Located.token)
      (given state head tail) := by
  simp only [Parser.step] at read
  split at read
  · rename_i phase
    exact tracks.operandStep phase read
  · rename_i phase
    split at read
    · cases read
    · rename_i operatorRead
      cases read
      have nothing : given state head tail = [] := by simp [given, phase]
      rw [nothing]
      exact tracks.operatorStep fits phase operatorRead (tail.map Located.token)

/-- A run advances to a state in which the source may end: it gives slots to the paths that the
tokens mention. -/
theorem run (tracks : Tracks enclosing state) (fits : state.Fits) {tokens : List Located}
    {found : Expr × Array Slot} (read : Parser.run state tokens = .ok found) :
    ∃ last, last.Fits ∧ finish last = .ok found ∧
      Advances state last (Token.unfolded enclosing none (tokens.map Located.token))
        (givenSlots state tokens) := by
  fun_induction Parser.run state tokens generalizing enclosing with
  | case1 state =>
      rw [givenSlots]
      exact ⟨state, fits, read, .refl state⟩
  | case2 => cases read
  | case3 state head tail next rest stepRead ih =>
      rcases tracks.step fits stepRead with ⟨inner, mentions, kept, walked, advances⟩
      rcases ih kept (fits.step stepRead) read with ⟨last, lastFits, finished, further⟩
      rw [walked, givenSlots_of_step stepRead]
      exact ⟨last, lastFits, finished, advances.trans tracks.interned further⟩

end Tracks

end Parser

/-- What reading a source makes of the paths in it. -/
theorem Expr.slots_of_ofTokens {tokens : List Located} {expr : Expr} {slots : Array Slot}
    (read : Expr.ofTokens tokens = .ok (expr, slots)) :
    let mentions := Token.unfolded [] none (tokens.map Located.token)
    let given := Parser.givenSlots .initial tokens
    slots = Slot.internPaths #[.root] (mentions.map Prod.snd) ∧
      given = mentions.map (Parser.numbered slots) ∧ expr.tested = Parser.testSlots given := by
  rcases Parser.Tracks.initial.run .initial read with ⟨last, fits, finished, advances⟩
  rcases Parser.eq_of_finish fits finished with ⟨rfl, tested⟩
  exact ⟨advances.slots, advances.given_eq, tested.trans advances.tested⟩

end Check

end JsonShape
