import JsonShape.Check.Expr
import JsonShape.Check.Token

/-!
# Reading check expressions

`Expr.ofTokens` reads the tokens of a check expression, as the module on the grammar describes
them. It keeps a stack of finished operands and a stack of operators that still wait for operands,
so that nesting is bounded by memory alone. Names are looked up as they are met, and a path gets
its slot at once.

`Parser.step` handles one token, together with the tokens of the test or binding that it opens,
and always leaves fewer tokens (`length_le_of_step`). Between two steps either an operand or an
operator must follow. The first token that cannot stand where it does decides the error.
-/

namespace JsonShape

namespace Check

/-- An operator that waits for operands, or a group that waits for its end. -/
inductive Pending
  | not
  | and
  /-- Behind `?`: the operand in progress is the consequent. -/
  | question
  /-- Behind `? … :`: the operand in progress is the alternative. -/
  | colon
  | group
  /-- A group in which a name is bound; the binding ends with it. -/
  | binding
  deriving Repr, DecidableEq

namespace Pending

/-- The operators that bind tighter than the one before `&&` or `?`. -/
def isLogical : Pending → Bool
  | .not | .and => true
  | .question | .colon | .group | .binding => false

/-- The operators that are complete before `:`, `)` and the end of the source. -/
def isComplete : Pending → Bool
  | .not | .and | .colon => true
  | .question | .group | .binding => false

/-- Applies an operator to its operands, which are on top of the stack. If there are too few, those
that are there are lost. -/
def apply : Pending → List Expr → List Expr
  | .not, operand :: operands => .not operand :: operands
  | .and, right :: left :: operands => left.conjoin right :: operands
  | .colon, alternative :: consequent :: condition :: operands =>
      .cond condition consequent alternative :: operands
  | .not, _ | .and, _ | .colon, _ => []
  | .question, operands | .group, operands | .binding, operands => operands

end Pending

namespace Parser

/-- What must follow. -/
inductive Phase
  | operand
  | operator
  deriving Repr, DecidableEq

/-- What has been read. Stacks are given top first, and so are the bindings in scope. -/
structure State where
  phase : Phase
  operands : List Expr
  pending : List Pending
  scope : List (String × Nat)
  slots : Array Slot

/-- Before the first token: an operand must follow, and only the root is known. -/
def State.initial : State :=
  ⟨.operand, [], [], [(rootName, 0)], #[.root]⟩

/-- Applies the operators on top of the stack for as long as they satisfy a condition. -/
def reduce (condition : Pending → Bool) : List Pending → List Expr → List Pending × List Expr
  | [], operands => ([], operands)
  | top :: pending, operands =>
      if condition top then reduce condition pending (top.apply operands)
      else (top :: pending, operands)

/-- Passes a token that must follow. -/
def expect (token : Token) : List Located → Except Error (List Located)
  | [] => .error .unexpectedEnd
  | head :: rest =>
      if head.token = token then .ok rest else .error (.unexpectedToken head.offset)

def text : List Located → Except Error (String × List Located)
  | [] => .error .unexpectedEnd
  | ⟨_, .text value⟩ :: rest => .ok (value, rest)
  | ⟨offset, _⟩ :: _ => .error (.unexpectedToken offset)

theorem expect_eq_ok_iff {token : Token} {tokens rest : List Located} :
    expect token tokens = .ok rest ↔ ∃ offset, tokens = ⟨offset, token⟩ :: rest := by
  constructor
  · intro read
    cases tokens with
    | nil => simp [expect] at read
    | cons head tail =>
        rcases head with ⟨offset, found⟩
        simp only [expect] at read
        split at read
        · rename_i same
          simp only [Except.ok.injEq] at read
          exact ⟨offset, by rw [read, ← same]⟩
        · simp at read
  · rintro ⟨offset, rfl⟩
    exact if_pos rfl

theorem text_eq_ok_iff {tokens rest : List Located} {value : String} :
    text tokens = .ok (value, rest) ↔ ∃ offset, tokens = ⟨offset, .text value⟩ :: rest := by
  constructor
  · intro read
    simp only [text] at read
    split at read
    · simp at read
    · rename_i offset found tail
      simp only [Except.ok.injEq, Prod.mk.injEq] at read
      exact ⟨offset, by rw [read.1, read.2]⟩
    · simp at read
  · rintro ⟨offset, rfl⟩
    rfl

theorem length_lt_of_expect {token : Token} {tokens rest : List Located}
    (read : expect token tokens = .ok rest) : rest.length < tokens.length := by
  rcases expect_eq_ok_iff.mp read with ⟨offset, rfl⟩
  exact Nat.lt_succ_self _

theorem length_lt_of_text {tokens rest : List Located} {value : String}
    (read : text tokens = .ok (value, rest)) : rest.length < tokens.length := by
  rcases text_eq_ok_iff.mp read with ⟨offset, rfl⟩
  exact Nat.lt_succ_self _

/-- Reads the member names of a path, each in brackets. -/
def keys (tokens : List Located) : Except Error (List String × List Located) :=
  match tokens with
  | ⟨_, .openBracket⟩ :: afterBracket =>
      match _text : text afterBracket with
      | .error error => .error error
      | .ok (key, afterKey) =>
          match _close : expect .closeBracket afterKey with
          | .error error => .error error
          | .ok afterMember =>
              match keys afterMember with
              | .error error => .error error
              | .ok (more, rest) => .ok (key :: more, rest)
  | _ => .ok ([], tokens)
termination_by tokens.length
decreasing_by
  have first := length_lt_of_text _text
  have second := length_lt_of_expect _close
  simp only [List.length_cons]
  omega

/-- Reads the names behind a path in `onlyKeys`, each after a comma. -/
def names (tokens : List Located) : Except Error (List String × List Located) :=
  match tokens with
  | ⟨_, .comma⟩ :: afterComma =>
      match _text : text afterComma with
      | .error error => .error error
      | .ok (name, afterName) =>
          match names afterName with
          | .error error => .error error
          | .ok (more, rest) => .ok (name :: more, rest)
  | _ => .ok ([], tokens)
termination_by tokens.length
decreasing_by
  have first := length_lt_of_text _text
  simp only [List.length_cons]
  omega

def resolve (scope : List (String × Nat)) (offset : Nat) (name : String) : Except Error Nat :=
  match scope.lookup name with
  | some slot => .ok slot
  | none => .error (.unknownName offset name)

/-- Reads the rest of a path whose first name has just been passed, and gives its slot. -/
def pathFrom (scope : List (String × Nat)) (slots : Array Slot) (offset : Nat) (name : String)
    (tokens : List Located) : Except Error ((Nat × Array Slot) × List Located) :=
  match resolve scope offset name with
  | .error error => .error error
  | .ok base =>
      match keys tokens with
      | .error error => .error error
      | .ok (keys, rest) => .ok (Slot.internPath slots base keys, rest)

def path (scope : List (String × Nat)) (slots : Array Slot) :
    List Located → Except Error ((Nat × Array Slot) × List Located)
  | [] => .error .unexpectedEnd
  | ⟨offset, .name first⟩ :: rest => pathFrom scope slots offset first rest
  | ⟨offset, _⟩ :: _ => .error (.unexpectedToken offset)

def kindTest (scope : List (String × Nat)) (slots : Array Slot) (tokens : List Located) :
    Except Error ((Expr × Array Slot) × List Located) :=
  match path scope slots tokens with
  | .error error => .error error
  | .ok ((slot, slots), afterPath) =>
      match expect .same afterPath with
      | .error error => .error error
      | .ok afterSame =>
          match text afterSame with
          | .error error => .error error
          | .ok (spelling, rest) =>
              match Json.Kind.ofSpelling? spelling with
              | none => .error (.unknownType spelling)
              | some kind => .ok ((.test slot (.isKind kind), slots), rest)

def onlyKeysTest (scope : List (String × Nat)) (slots : Array Slot) (tokens : List Located) :
    Except Error ((Expr × Array Slot) × List Located) :=
  match expect .openParen tokens with
  | .error error => .error error
  | .ok afterOpen =>
      match path scope slots afterOpen with
      | .error error => .error error
      | .ok ((slot, slots), afterPath) =>
          match names afterPath with
          | .error error => .error error
          | .ok (names, afterNames) =>
              match expect .closeParen afterNames with
              | .error error => .error error
              | .ok rest =>
                  .ok ((.test slot (.onlyKeys (Members.sortedNames names)), slots), rest)

def comparison : List Located → Except Error (Test × List Located)
  | [] => .error .unexpectedEnd
  | ⟨_, .reserved .nullWord⟩ :: rest => .ok (.isNull, rest)
  | ⟨_, .reserved .undefinedWord⟩ :: rest => .ok (.isAbsent, rest)
  | ⟨offset, _⟩ :: _ => .error (.unexpectedToken offset)

/-- Reads a comparison whose first name has just been passed. -/
def comparisonTest (scope : List (String × Nat)) (slots : Array Slot) (offset : Nat)
    (name : String) (tokens : List Located) :
    Except Error ((Expr × Array Slot) × List Located) :=
  match pathFrom scope slots offset name tokens with
  | .error error => .error error
  | .ok ((slot, slots), afterPath) =>
      match expect .same afterPath with
      | .error error => .error error
      | .ok afterSame =>
          match comparison afterSame with
          | .error error => .error error
          | .ok (test, rest) => .ok ((.test slot test, slots), rest)

def hasTest (scope : List (String × Nat)) (slots : Array Slot) (key : String)
    (tokens : List Located) : Except Error ((Expr × Array Slot) × List Located) :=
  match expect (.reserved .inWord) tokens with
  | .error error => .error error
  | .ok afterIn =>
      match path scope slots afterIn with
      | .error error => .error error
      | .ok ((slot, slots), rest) => .ok ((.test slot (.has key), slots), rest)

/-- Reads an operand that begins with a given token and is no group. -/
def atom (scope : List (String × Nat)) (slots : Array Slot) (head : Located)
    (tokens : List Located) : Except Error ((Expr × Array Slot) × List Located) :=
  match head.token with
  | .reserved .trueWord => .ok ((.constant true, slots), tokens)
  | .reserved .falseWord => .ok ((.constant false, slots), tokens)
  | .reserved .typeofWord => kindTest scope slots tokens
  | .reserved .onlyKeysWord => onlyKeysTest scope slots tokens
  | .name first => comparisonTest scope slots head.offset first tokens
  | .text key => hasTest scope slots key tokens
  | _ => .error (.unexpectedToken head.offset)

def boundName : List Located → Except Error (String × List Located)
  | [] => .error .unexpectedEnd
  | ⟨_, .name bound⟩ :: rest => .ok (bound, rest)
  | ⟨offset, _⟩ :: _ => .error (.unexpectedToken offset)

/-- Reads what follows `let`, up to the parenthesis that opens the scope of the binding. The path
of a binding is read before its name is bound. -/
def binding (scope : List (String × Nat)) (slots : Array Slot) (tokens : List Located) :
    Except Error (((String × Nat) × Array Slot) × List Located) :=
  match boundName tokens with
  | .error error => .error error
  | .ok (name, afterName) =>
      match expect .assign afterName with
      | .error error => .error error
      | .ok afterAssign =>
          match path scope slots afterAssign with
          | .error error => .error error
          | .ok ((slot, slots), afterPath) =>
              match expect (.reserved .inWord) afterPath with
              | .error error => .error error
              | .ok afterIn =>
                  match expect .openParen afterIn with
                  | .error error => .error error
                  | .ok rest => .ok (((name, slot), slots), rest)

def operandStep (state : State) (head : Located) (tokens : List Located) :
    Except Error (State × List Located) :=
  match head.token with
  | .not => .ok ({ state with pending := .not :: state.pending }, tokens)
  | .openParen => .ok ({ state with pending := .group :: state.pending }, tokens)
  | .reserved .letWord =>
      match binding state.scope state.slots tokens with
      | .error error => .error error
      | .ok ((bound, slots), rest) =>
          .ok ({ state with
            pending := .binding :: state.pending
            scope := bound :: state.scope
            slots }, rest)
  | _ =>
      match atom state.scope state.slots head tokens with
      | .error error => .error error
      | .ok ((expr, slots), rest) =>
          .ok ({ state with
            phase := .operator
            operands := expr :: state.operands
            slots }, rest)

/-- Puts an operator that binds loosely on the stack, after those that bind tighter are applied. -/
def pushLoose (state : State) (operator : Pending) : State :=
  let (pending, operands) := reduce Pending.isLogical state.pending state.operands
  { state with phase := .operand, pending := operator :: pending, operands }

def operatorStep (state : State) (head : Located) : Except Error State :=
  match head.token with
  | .and => .ok (pushLoose state .and)
  | .question => .ok (pushLoose state .question)
  | .colon =>
      match reduce Pending.isComplete state.pending state.operands with
      | (.question :: pending, operands) =>
          .ok { state with phase := .operand, pending := .colon :: pending, operands }
      | _ => .error (.unexpectedToken head.offset)
  | .closeParen =>
      match reduce Pending.isComplete state.pending state.operands with
      | (.group :: pending, operands) => .ok { state with pending, operands }
      | (.binding :: pending, operands) =>
          .ok { state with pending, operands, scope := state.scope.tail }
      | _ => .error (.unexpectedToken head.offset)
  | _ => .error (.unexpectedToken head.offset)

/-- Reads a token and whatever belongs to the operand that it opens. -/
def step (state : State) (head : Located) (tokens : List Located) :
    Except Error (State × List Located) :=
  match state.phase with
  | .operand => operandStep state head tokens
  | .operator =>
      match operatorStep state head with
      | .error error => .error error
      | .ok next => .ok (next, tokens)

/-- The expression that has been read when the source ends: an operand must be complete and every
group closed. -/
def finish (state : State) : Except Error (Expr × Array Slot) :=
  match state.phase, reduce Pending.isComplete state.pending state.operands with
  | .operator, ([], [expr]) => .ok (expr, state.slots)
  | _, _ => .error .unexpectedEnd

theorem length_le_of_keys {tokens rest : List Located} {found : List String}
    (read : keys tokens = .ok (found, rest)) : rest.length ≤ tokens.length := by
  fun_induction keys tokens generalizing found rest with
  | case1 => simp at read
  | case2 => simp at read
  | case3 => simp at read
  | case4 offset afterBracket key afterKey textRead afterMember closeRead more tail again ih =>
      simp only [Except.ok.injEq, Prod.mk.injEq] at read
      have first := length_lt_of_text textRead
      have second := length_lt_of_expect closeRead
      have third := ih again
      simp only [← read.2, List.length_cons]
      omega
  | case5 =>
      simp only [Except.ok.injEq, Prod.mk.injEq] at read
      simp [read.2]

theorem length_le_of_names {tokens rest : List Located} {found : List String}
    (read : names tokens = .ok (found, rest)) : rest.length ≤ tokens.length := by
  fun_induction names tokens generalizing found rest with
  | case1 => simp at read
  | case2 => simp at read
  | case3 offset afterComma name afterName textRead more tail again ih =>
      simp only [Except.ok.injEq, Prod.mk.injEq] at read
      have first := length_lt_of_text textRead
      have second := ih again
      simp only [← read.2, List.length_cons]
      omega
  | case4 =>
      simp only [Except.ok.injEq, Prod.mk.injEq] at read
      simp [read.2]

/-! ### What the readers pass -/

section Parts

variable {scope : List (String × Nat)} {slots : Array Slot} {tokens rest : List Located}

theorem pathFrom_eq_ok_iff {offset : Nat} {name : String} {found : Nat × Array Slot} :
    pathFrom scope slots offset name tokens = .ok (found, rest) ↔
      ∃ base members, scope.lookup name = some base ∧ keys tokens = .ok (members, rest) ∧
        found = Slot.internPath slots base members := by
  constructor
  · intro read
    simp only [pathFrom, resolve] at read
    split at read
    · simp at read
    · rename_i base resolved
      split at resolved
      · rename_i bound
        split at read
        · simp at read
        · rename_i members tail keysRead
          simp only [Except.ok.injEq, Prod.mk.injEq] at read resolved
          rcases read with ⟨rfl, rfl⟩
          exact ⟨base, members, resolved ▸ bound, keysRead, rfl⟩
      · simp at resolved
  · rintro ⟨base, members, bound, keysRead, rfl⟩
    simp only [pathFrom, resolve, bound, keysRead]

theorem path_eq_ok_iff {found : Nat × Array Slot} :
    path scope slots tokens = .ok (found, rest) ↔
      ∃ offset name later, tokens = ⟨offset, .name name⟩ :: later ∧
        pathFrom scope slots offset name later = .ok (found, rest) := by
  constructor
  · intro read
    simp only [path] at read
    split at read
    · simp at read
    · exact ⟨_, _, _, rfl, read⟩
    · simp at read
  · rintro ⟨offset, name, later, rfl, read⟩
    exact read

theorem kindTest_eq_ok_iff {found : Expr × Array Slot} :
    kindTest scope slots tokens = .ok (found, rest) ↔
      ∃ target sameOffset textOffset kind,
        path scope slots tokens = .ok (target,
          ⟨sameOffset, .same⟩ :: ⟨textOffset, .text kind.spelling⟩ :: rest) ∧
        found = (.test target.1 (.isKind kind), target.2) := by
  constructor
  · intro read
    simp only [kindTest] at read
    split at read
    · simp at read
    · rename_i slot after afterPath pathRead
      split at read
      · simp at read
      · rename_i sameRead
        split at read
        · simp at read
        · rename_i textRead
          split at read
          · simp at read
          · rename_i kind known
            simp only [Except.ok.injEq, Prod.mk.injEq] at read
            rcases read with ⟨rfl, rfl⟩
            rcases expect_eq_ok_iff.mp sameRead with ⟨sameOffset, rfl⟩
            rcases text_eq_ok_iff.mp textRead with ⟨textOffset, rfl⟩
            rw [Json.Kind.ofSpelling?_eq_some_iff.mp known] at pathRead
            exact ⟨(slot, after), sameOffset, textOffset, kind, pathRead, rfl⟩
  · rintro ⟨target, sameOffset, textOffset, kind, pathRead, rfl⟩
    simp [kindTest, pathRead, expect, text]

theorem onlyKeysTest_eq_ok_iff {found : Expr × Array Slot} :
    onlyKeysTest scope slots tokens = .ok (found, rest) ↔
      ∃ openOffset afterOpen target afterPath listed closeOffset,
        tokens = ⟨openOffset, .openParen⟩ :: afterOpen ∧
        path scope slots afterOpen = .ok (target, afterPath) ∧
        names afterPath = .ok (listed, ⟨closeOffset, .closeParen⟩ :: rest) ∧
        found = (.test target.1 (.onlyKeys (Members.sortedNames listed)), target.2) := by
  constructor
  · intro read
    simp only [onlyKeysTest] at read
    split at read
    · simp at read
    · rename_i afterOpen openRead
      split at read
      · simp at read
      · rename_i slot after afterPath pathRead
        split at read
        · simp at read
        · rename_i listed afterNames namesRead
          split at read
          · simp at read
          · rename_i closeRead
            simp only [Except.ok.injEq, Prod.mk.injEq] at read
            rcases read with ⟨rfl, rfl⟩
            rcases expect_eq_ok_iff.mp openRead with ⟨openOffset, rfl⟩
            rcases expect_eq_ok_iff.mp closeRead with ⟨closeOffset, rfl⟩
            exact ⟨openOffset, afterOpen, (slot, after), afterPath, listed, closeOffset, rfl,
              pathRead, namesRead, rfl⟩
  · rintro ⟨openOffset, afterOpen, target, afterPath, listed, closeOffset, rfl, pathRead,
      namesRead, rfl⟩
    simp [onlyKeysTest, expect, pathRead, namesRead]

theorem comparison_eq_ok_iff {asked : Test} :
    comparison tokens = .ok (asked, rest) ↔
      ∃ offset word, tokens = ⟨offset, .reserved word⟩ :: rest ∧
        (word = .nullWord ∧ asked = .isNull ∨ word = .undefinedWord ∧ asked = .isAbsent) := by
  constructor
  · intro read
    simp only [comparison] at read
    split at read
    case h_2 offset tail =>
      simp only [Except.ok.injEq, Prod.mk.injEq] at read
      rcases read with ⟨rfl, rfl⟩
      exact ⟨offset, .nullWord, rfl, .inl ⟨rfl, rfl⟩⟩
    case h_3 offset tail =>
      simp only [Except.ok.injEq, Prod.mk.injEq] at read
      rcases read with ⟨rfl, rfl⟩
      exact ⟨offset, .undefinedWord, rfl, .inr ⟨rfl, rfl⟩⟩
    all_goals simp at read
  · rintro ⟨offset, word, rfl, ⟨rfl, rfl⟩ | ⟨rfl, rfl⟩⟩
    · rfl
    · rfl

theorem comparisonTest_eq_ok_iff {offset : Nat} {name : String} {found : Expr × Array Slot} :
    comparisonTest scope slots offset name tokens = .ok (found, rest) ↔
      ∃ target sameOffset afterSame asked,
        pathFrom scope slots offset name tokens = .ok (target, ⟨sameOffset, .same⟩ :: afterSame) ∧
        comparison afterSame = .ok (asked, rest) ∧ found = (.test target.1 asked, target.2) := by
  constructor
  · intro read
    simp only [comparisonTest] at read
    split at read
    · simp at read
    · rename_i slot after afterPath pathRead
      split at read
      · simp at read
      · rename_i afterSame sameRead
        split at read
        · simp at read
        · rename_i asked tail comparisonRead
          simp only [Except.ok.injEq, Prod.mk.injEq] at read
          rcases read with ⟨rfl, rfl⟩
          rcases expect_eq_ok_iff.mp sameRead with ⟨sameOffset, rfl⟩
          exact ⟨(slot, after), sameOffset, afterSame, asked, pathRead, comparisonRead, rfl⟩
  · rintro ⟨target, sameOffset, afterSame, asked, pathRead, comparisonRead, rfl⟩
    simp [comparisonTest, pathRead, expect, comparisonRead]

theorem hasTest_eq_ok_iff {key : String} {found : Expr × Array Slot} :
    hasTest scope slots key tokens = .ok (found, rest) ↔
      ∃ offset later target, tokens = ⟨offset, .reserved .inWord⟩ :: later ∧
        path scope slots later = .ok (target, rest) ∧
        found = (.test target.1 (.has key), target.2) := by
  constructor
  · intro read
    simp only [hasTest] at read
    split at read
    · simp at read
    · rename_i later inRead
      split at read
      · simp at read
      · rename_i slot after tail pathRead
        simp only [Except.ok.injEq, Prod.mk.injEq] at read
        rcases read with ⟨rfl, rfl⟩
        rcases expect_eq_ok_iff.mp inRead with ⟨offset, rfl⟩
        exact ⟨offset, later, (slot, after), rfl, pathRead, rfl⟩
  · rintro ⟨offset, later, target, rfl, pathRead, rfl⟩
    simp [hasTest, expect, pathRead]

theorem boundName_eq_ok_iff {name : String} :
    boundName tokens = .ok (name, rest) ↔ ∃ offset, tokens = ⟨offset, .name name⟩ :: rest := by
  constructor
  · intro read
    simp only [boundName] at read
    split at read
    · simp at read
    · rename_i offset bound tail
      simp only [Except.ok.injEq, Prod.mk.injEq] at read
      exact ⟨offset, by rw [read.1, read.2]⟩
    · simp at read
  · rintro ⟨offset, rfl⟩
    rfl

theorem binding_eq_ok_iff {found : (String × Nat) × Array Slot} :
    binding scope slots tokens = .ok (found, rest) ↔
      ∃ nameOffset name assignOffset later target inOffset openOffset,
        tokens = ⟨nameOffset, .name name⟩ :: ⟨assignOffset, .assign⟩ :: later ∧
        path scope slots later = .ok (target,
          ⟨inOffset, .reserved .inWord⟩ :: ⟨openOffset, .openParen⟩ :: rest) ∧
        found = ((name, target.1), target.2) := by
  constructor
  · intro read
    simp only [binding] at read
    split at read
    · simp at read
    · rename_i name afterName nameRead
      split at read
      · simp at read
      · rename_i later assignRead
        split at read
        · simp at read
        · rename_i slot after afterPath pathRead
          split at read
          · simp at read
          · rename_i inRead
            split at read
            · simp at read
            · rename_i openRead
              simp only [Except.ok.injEq, Prod.mk.injEq] at read
              rcases read with ⟨rfl, rfl⟩
              rcases boundName_eq_ok_iff.mp nameRead with ⟨nameOffset, rfl⟩
              rcases expect_eq_ok_iff.mp assignRead with ⟨assignOffset, rfl⟩
              rcases expect_eq_ok_iff.mp inRead with ⟨inOffset, rfl⟩
              rcases expect_eq_ok_iff.mp openRead with ⟨openOffset, rfl⟩
              exact ⟨nameOffset, name, assignOffset, later, (slot, after), inOffset, openOffset,
                rfl, pathRead, rfl⟩
  · rintro ⟨nameOffset, name, assignOffset, later, target, inOffset, openOffset, rfl, pathRead,
      rfl⟩
    simp [binding, boundName, expect, pathRead]

theorem length_le_of_pathFrom {offset : Nat} {name : String} {found : Nat × Array Slot}
    (read : pathFrom scope slots offset name tokens = .ok (found, rest)) :
    rest.length ≤ tokens.length := by
  rcases pathFrom_eq_ok_iff.mp read with ⟨base, members, -, keysRead, -⟩
  exact length_le_of_keys keysRead

theorem length_le_of_path {found : Nat × Array Slot}
    (read : path scope slots tokens = .ok (found, rest)) : rest.length ≤ tokens.length := by
  rcases path_eq_ok_iff.mp read with ⟨offset, name, later, rfl, laterRead⟩
  exact Nat.le_succ_of_le (length_le_of_pathFrom laterRead)

theorem length_le_of_atom {head : Located} {found : Expr × Array Slot}
    (read : atom scope slots head tokens = .ok (found, rest)) : rest.length ≤ tokens.length := by
  simp only [atom] at read
  split at read
  case h_1 | h_2 =>
    simp only [Except.ok.injEq, Prod.mk.injEq] at read
    simp [read.2]
  case h_3 =>
    rcases kindTest_eq_ok_iff.mp read with ⟨target, _, _, _, pathRead, -⟩
    have shorter := length_le_of_path pathRead
    simp only [List.length_cons] at shorter
    omega
  case h_4 =>
    rcases onlyKeysTest_eq_ok_iff.mp read with ⟨_, _, _, _, _, _, rfl, pathRead, namesRead, -⟩
    have first := length_le_of_path pathRead
    have second := length_le_of_names namesRead
    simp only [List.length_cons] at second ⊢
    omega
  case h_5 =>
    rcases comparisonTest_eq_ok_iff.mp read with ⟨_, _, _, _, pathRead, comparisonRead, -⟩
    rcases comparison_eq_ok_iff.mp comparisonRead with ⟨_, _, rfl, -⟩
    have shorter := length_le_of_pathFrom pathRead
    simp only [List.length_cons] at shorter
    omega
  case h_6 =>
    rcases hasTest_eq_ok_iff.mp read with ⟨_, _, _, rfl, pathRead, -⟩
    exact Nat.le_succ_of_le (length_le_of_path pathRead)
  case h_7 => simp at read

theorem length_le_of_binding {found : (String × Nat) × Array Slot}
    (read : binding scope slots tokens = .ok (found, rest)) : rest.length ≤ tokens.length := by
  rcases binding_eq_ok_iff.mp read with ⟨_, _, _, _, _, _, _, rfl, pathRead, -⟩
  have shorter := length_le_of_path pathRead
  simp only [List.length_cons] at shorter ⊢
  omega

end Parts

/-- A step passes its token at least. -/
theorem length_le_of_step {state next : State} {head : Located} {tokens rest : List Located}
    (read : step state head tokens = .ok (next, rest)) : rest.length ≤ tokens.length := by
  simp only [step] at read
  split at read
  · simp only [operandStep] at read
    split at read
    case h_1 | h_2 =>
      simp only [Except.ok.injEq, Prod.mk.injEq] at read
      simp [read.2]
    case h_3 =>
      split at read
      · simp at read
      · rename_i bindingRead
        simp only [Except.ok.injEq, Prod.mk.injEq] at read
        exact read.2 ▸ length_le_of_binding bindingRead
    case h_4 =>
      split at read
      · simp at read
      · rename_i atomRead
        simp only [Except.ok.injEq, Prod.mk.injEq] at read
        exact read.2 ▸ length_le_of_atom atomRead
  · split at read
    · simp at read
    · simp only [Except.ok.injEq, Prod.mk.injEq] at read
      simp [read.2]

/-- Reads tokens to the end of the source. -/
def run (state : State) (tokens : List Located) : Except Error (Expr × Array Slot) :=
  match tokens with
  | [] => finish state
  | head :: tail =>
      match _read : step state head tail with
      | .error error => .error error
      | .ok (next, rest) => run next rest
termination_by tokens.length
decreasing_by exact Nat.lt_succ_of_le (length_le_of_step _read)

end Parser

/-- Reads the tokens of a check expression: the expression and its table of slots. -/
def Expr.ofTokens (tokens : List Located) : Except Error (Expr × Array Slot) :=
  Parser.run .initial tokens

end Check

end JsonShape
