import JsonShape.Json.Kind

/-!
# Check expressions

A check expression is a boolean formula over tests of values. The values are the one under test
and the members reached from it; each has a number in a table of slots. A slot is the root or a
member of a slot with a smaller number, so `Slot.path` can follow it back to the root, and
`Slot.value` is what that path reaches: absent as soon as something on the way is absent or no
object.

`Slot.intern` gives a member the slot it already has, and a new one at the end of the table only
if it has none.

A conjunction has at least one part, and its parts are kept in one list as they were written, so
that `a && b && c` is a conjunction of three.
-/

namespace JsonShape

namespace Check

/-- The name of the value under test. -/
def rootName : String := "value"

/-- Where the value of a slot comes from. -/
inductive Slot
  /-- The value under test. -/
  | root
  /-- The member `key` of the object in slot `parent`. -/
  | member (parent : Nat) (key : String)
  deriving Repr, DecidableEq

/-- What a sequence of member names reaches from a value. -/
def follow (value : Option Json) (keys : List String) : Option Json :=
  keys.foldl (fun reached key => reached.bind (Json.member? · key)) value

namespace Slot

/-- The names on the way from the root to a slot. -/
def path (slots : Array Slot) (slot : Nat) : List String :=
  match slots[slot]? with
  | some (.member parent key) =>
      if parent < slot then path slots parent ++ [key] else [key]
  | some .root | none => []
termination_by slot

/-- Every member stands behind its parent in a table of slots. -/
def Ordered (slots : Array Slot) : Prop :=
  ∀ (slot parent : Nat) (key : String), slots[slot]? = some (.member parent key) → parent < slot

/-- The value of a slot when `subject` is under test. -/
def value (slots : Array Slot) (subject : Option Json) (slot : Nat) : Option Json :=
  follow subject (path slots slot)

/-- The slot of a member, and the table with that slot in it. -/
def intern (slots : Array Slot) (parent : Nat) (key : String) : Nat × Array Slot :=
  match slots.findIdx? (· = .member parent key) with
  | some slot => (slot, slots)
  | none => (slots.size, slots.push (.member parent key))

/-- The slot that a sequence of member names leads to, and the table with all slots on the way. -/
def internPath (slots : Array Slot) (base : Nat) : List String → Nat × Array Slot
  | [] => (base, slots)
  | key :: rest => internPath (intern slots base key).2 (intern slots base key).1 rest

end Slot

/-- A test of one value. -/
inductive Test
  | isNull
  | isAbsent
  | isKind (kind : Json.Kind)
  /-- The value is an object with a member of this name. -/
  | has (key : String)
  /-- The value is an object without members of other names. The names are in order and distinct. -/
  | onlyKeys (keys : List String)
  deriving Repr, DecidableEq

namespace Test

/-- Whether a value that may be absent passes a test. -/
def holds : Test → Option Json → Bool
  | .isNull, some .null => true
  | .isNull, _ => false
  | .isAbsent, value => value.isNone
  | .isKind kind, value => value.any kind.includes
  | .has key, value => value.any fun value => (value.member? key).isSome
  | .onlyKeys keys, value =>
      (value.bind Json.members?).any fun members => (Members.names members).all (· ∈ keys)

end Test

/-- A check expression. Tests name the slot of the value that they test. -/
inductive Expr
  | constant (value : Bool)
  | test (slot : Nat) (test : Test)
  | not (operand : Expr)
  | and (first : Expr) (rest : List Expr)
  | cond (condition consequent alternative : Expr)
  deriving Repr

namespace Expr

/-- Adds a part to the end of a conjunction; an expression of another form becomes its first part.
-/
def conjoin : Expr → Expr → Expr
  | .and first rest, last => .and first (rest ++ [last])
  | left, right => .and left [right]

mutual

/-- The truth value of an expression for given truth values of its tests. -/
def eval (truth : Nat → Test → Bool) : Expr → Bool
  | .constant value => value
  | .test slot asked => truth slot asked
  | .not operand => !eval truth operand
  | .and first rest => eval truth first && evalAll truth rest
  | .cond condition consequent alternative =>
      if eval truth condition then eval truth consequent else eval truth alternative

def evalAll (truth : Nat → Test → Bool) : List Expr → Bool
  | [] => true
  | first :: rest => eval truth first && evalAll truth rest

end

mutual

/-- The slots that an expression tests, in the order in which the tests are written. -/
def tested : Expr → List Nat
  | .constant _ => []
  | .test slot _ => [slot]
  | .not operand => tested operand
  | .and first rest => tested first ++ testedAll rest
  | .cond condition consequent alternative =>
      tested condition ++ tested consequent ++ tested alternative

def testedAll : List Expr → List Nat
  | [] => []
  | first :: rest => tested first ++ testedAll rest

end

mutual

/-- The number of nodes of an expression, where each further part of a conjunction counts one
more. -/
def size : Expr → Nat
  | .constant _ | .test _ _ => 1
  | .not operand => size operand + 1
  | .and first rest => size first + sizeAll rest + 1
  | .cond condition consequent alternative =>
      size condition + size consequent + size alternative + 1

def sizeAll : List Expr → Nat
  | [] => 0
  | first :: rest => size first + sizeAll rest + 1

end

end Expr

end Check

end JsonShape
