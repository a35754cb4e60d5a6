import JsonShape.Program.Lowering

/-!
# Where instructions stand

`Expr.piece` is the code of an expression that begins at given positions of a program, written
down by recursion on the expression with every branch leading to its final target:

* a test or a constant is one instruction;
* nested negations cancel in pairs, and what remains of them is one inversion;
* the parts of a conjunction follow one another, and each but the last may branch to the end;
* `c ? false : b` runs `c` inverted and then, if that is true, `b`;
* `c ? true : b` runs `c` and then, if that is false, `b`;
* any other conditional branches around its consequent and then around its alternative.
-/

namespace JsonShape

open Check

/-- Instructions in a row, with their names and sets of names. -/
structure Piece where
  ops : List Instruction
  keys : List String
  keySets : List (List String)
  deriving Repr, DecidableEq

/-- How many instructions, names and sets of names stand before a piece of code. -/
structure Offsets where
  ops : Nat
  keys : Nat
  keySets : Nat
  deriving Repr, DecidableEq

namespace Piece

def empty : Piece :=
  ⟨[], [], []⟩

def ofOp (op : Instruction) : Piece :=
  ⟨[op], [], []⟩

def append (first second : Piece) : Piece :=
  ⟨first.ops ++ second.ops, first.keys ++ second.keys, first.keySets ++ second.keySets⟩

instance : Append Piece := ⟨append⟩

/-- A piece, and an inversion behind it if one is asked for. -/
def invertIf (inverted : Bool) (piece : Piece) : Piece :=
  if inverted then piece ++ ofOp .not else piece

/-- Pieces in a row, each behind a branch that is taken if the accumulator is false. -/
def guarded (target : Nat) : List Piece → Piece
  | [] => empty
  | piece :: rest => ofOp (.jump .ifFalse target) ++ piece ++ guarded target rest

/-- The number of instructions of pieces in a row, each behind a branch. -/
def guardedLength : List Piece → Nat
  | [] => 0
  | piece :: rest => piece.ops.length + 1 + guardedLength rest

end Piece

namespace Offsets

/-- The positions behind a piece and some more instructions without names. -/
def after (offsets : Offsets) (piece : Piece) (more : Nat) : Offsets :=
  ⟨offsets.ops + piece.ops.length + more, offsets.keys + piece.keys.length,
    offsets.keySets + piece.keySets.length⟩

end Offsets

def Piece.ofTest (start : Offsets) (slot : Nat) : Test → Piece
  | .isNull => ofOp (.isNull slot)
  | .isAbsent => ofOp (.isAbsent slot)
  | .isKind kind => ofOp (.isKind kind slot)
  | .has key => ⟨[.has slot start.keys], [key], []⟩
  | .onlyKeys keys => ⟨[.onlyKeys slot start.keySets], [], [keys]⟩

namespace Check.Expr

mutual

/-- The code of an expression, inverted or not, from given positions on. -/
def piece (start : Offsets) (inverted : Bool) : Expr → Piece
  | .constant value => (Piece.ofOp (.constant value)).invertIf inverted
  | .test slot asked => (Piece.ofTest start slot asked).invertIf inverted
  | .not operand => piece start (!inverted) operand
  | .and first rest =>
      let head := piece start false first
      let tail := pieces (start.after head 1) rest
      let target := start.ops + head.ops.length + Piece.guardedLength tail
      (head ++ Piece.guarded target tail).invertIf inverted
  | .cond condition (.constant false) alternative =>
      let test := piece start true condition
      let otherwise := piece (start.after test 1) false alternative
      let target := start.ops + test.ops.length + 1 + otherwise.ops.length
      (test ++ Piece.ofOp (.jump .ifFalse target) ++ otherwise).invertIf inverted
  | .cond condition (.constant true) alternative =>
      let test := piece start false condition
      let otherwise := piece (start.after test 1) false alternative
      let target := start.ops + test.ops.length + 1 + otherwise.ops.length
      (test ++ Piece.ofOp (.jump .ifTrue target) ++ otherwise).invertIf inverted
  | .cond condition consequent alternative =>
      let test := piece start false condition
      let middle := start.after test 1
      let whenTrue := piece middle false consequent
      let last := middle.after whenTrue 1
      let whenFalse := piece last false alternative
      (test ++ Piece.ofOp (.jump .ifFalse last.ops) ++ whenTrue ++
        Piece.ofOp (.jump .always (last.ops + whenFalse.ops.length)) ++ whenFalse).invertIf inverted

/-- The codes of expressions in a row, with one more instruction before each but the first. -/
def pieces (start : Offsets) : List Expr → List Piece
  | [] => []
  | first :: rest =>
      let head := piece start false first
      head :: pieces (start.after head 1) rest

end

end Check.Expr

end JsonShape
