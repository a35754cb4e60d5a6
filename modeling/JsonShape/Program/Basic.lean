import JsonShape.Check.Expr

/-!
# Programs

A program is a check expression as a list of instructions for a machine with one truth value, the
accumulator. Tests and constants set the accumulator, and branches look at it. The values that
tests look at are numbered by the slots of the expression. Member names and sets of names stand in
tables of their own, and instructions give their positions there.

`Program.Safe` says what makes a program run without a fault: all operands lie inside the tables,
every slot but the first is a member of an earlier one, and branches lead forwards, to the end at
most.
-/

namespace JsonShape

/-- When a branch is taken. -/
inductive Branch
  | always
  | ifFalse
  | ifTrue
  deriving Repr, DecidableEq

def Branch.taken : Branch → Bool → Bool
  | .always, _ => true
  | .ifFalse, accumulator => !accumulator
  | .ifTrue, accumulator => accumulator

inductive Instruction
  | constant (value : Bool)
  | isNull (slot : Nat)
  | isAbsent (slot : Nat)
  | isKind (kind : Json.Kind) (slot : Nat)
  /-- Tests for a member with the name at a position of the table of names. -/
  | has (slot key : Nat)
  /-- Tests for members outside the set at a position of the table of sets. -/
  | onlyKeys (slot keySet : Nat)
  /-- Inverts the accumulator. -/
  | not
  /-- Goes on at another position if the branch is taken. -/
  | jump (branch : Branch) (target : Nat)
  deriving Repr, DecidableEq

namespace Instruction

/-- The slot that an instruction looks at. -/
def slot? : Instruction → Option Nat
  | .isNull slot | .isAbsent slot | .isKind _ slot | .has slot _ | .onlyKeys slot _ => some slot
  | .constant _ | .not | .jump _ _ => none

/-- The position that an instruction may lead to other than the next. -/
def target? : Instruction → Option Nat
  | .jump _ target => some target
  | _ => none

/-- A branch to another position; other instructions stay as they are. -/
def retarget (target : Nat) : Instruction → Instruction
  | .jump branch _ => .jump branch target
  | instruction => instruction

end Instruction

structure Program where
  ops : Array Instruction
  slots : Array Check.Slot
  keys : Array String
  /-- Each set is in order and without repetitions. -/
  keySets : Array (List String)
  /-- The text that the program was compiled from. -/
  source : String
  deriving Repr, DecidableEq

namespace Program

/-- The program of no expression. Nothing sets its accumulator, so it accepts no value. -/
def empty : Program :=
  ⟨#[], #[.root], #[], #[], ""⟩

/-- What a program must satisfy to run without a fault. -/
structure Safe (program : Program) : Prop where
  slot_lt : ∀ op ∈ program.ops, ∀ slot ∈ op.slot?, slot < program.slots.size
  key_lt : ∀ slot key, Instruction.has slot key ∈ program.ops → key < program.keys.size
  keySet_lt : ∀ slot keySet, Instruction.onlyKeys slot keySet ∈ program.ops →
    keySet < program.keySets.size
  slots_ordered : Check.Slot.Ordered program.slots
  target_gt : ∀ (index : Nat) (op : Instruction), program.ops[index]? = some op →
    ∀ target ∈ op.target?, index < target
  target_le : ∀ op ∈ program.ops, ∀ target ∈ op.target?, target ≤ program.ops.size

end Program

end JsonShape
