import JsonShape.Program.Layout

/-!
# Pieces of code

Code grows by pieces, and pieces in a row are one piece. A branch is added with target zero and gets
its target when it is patched; `land_add_jump` is the moment at which it gets the target that the
piece gives it. `Piece.branches` lists the branches of a piece that stands somewhere in a program.
-/

namespace JsonShape

open Check

namespace Piece

@[simp]
theorem ops_append (first second : Piece) : (first ++ second).ops = first.ops ++ second.ops := rfl

@[simp]
theorem keys_append (first second : Piece) : (first ++ second).keys = first.keys ++ second.keys :=
  rfl

@[simp]
theorem keySets_append (first second : Piece) :
    (first ++ second).keySets = first.keySets ++ second.keySets := rfl

theorem append_assoc (first second third : Piece) :
    first ++ second ++ third = first ++ (second ++ third) := by
  change Piece.mk _ _ _ = Piece.mk _ _ _
  simp [List.append_assoc]

@[simp]
theorem ops_ofOp (op : Instruction) : (ofOp op).ops = [op] := rfl

@[simp]
theorem keys_ofOp (op : Instruction) : (ofOp op).keys = [] := rfl

@[simp]
theorem keySets_ofOp (op : Instruction) : (ofOp op).keySets = [] := rfl

@[simp]
theorem invertIf_true (piece : Piece) : piece.invertIf true = piece ++ ofOp .not := rfl

theorem length_ops_guarded (target : Nat) (pieces : List Piece) :
    (guarded target pieces).ops.length = guardedLength pieces := by
  induction pieces with
  | nil => rfl
  | cons piece rest ih =>
      simp only [guarded, guardedLength, ops_append, ops_ofOp, List.length_append,
        List.length_singleton, ih]
      omega

/-- Where the branches of a piece stand and where they lead, when the piece begins at a position. -/
def branches (piece : Piece) (start : Nat) : List (Nat × Nat) :=
  (piece.ops.zipIdx start).filterMap fun (op, position) => op.target?.map (Prod.mk position)

@[simp]
theorem branches_append (first second : Piece) (start : Nat) :
    (first ++ second).branches start =
      first.branches start ++ second.branches (start + first.ops.length) := by
  rw [branches, ops_append, List.zipIdx_append, List.filterMap_append]
  rfl

@[simp]
theorem branches_ofOp_jump (branch : Branch) (target start : Nat) :
    (ofOp (.jump branch target)).branches start = [(start, target)] := rfl

/-- The branches of a conditional with a branch behind its condition and one behind its consequent.
-/
theorem branches_conditional (first second third : Piece) (branch exit : Branch)
    (target stop start : Nat) :
    let position := start + first.ops.length
    let last := position + 1 + second.ops.length
    (first ++ ofOp (.jump branch target) ++ second ++ ofOp (.jump exit stop) ++ third).branches
        start =
      first.branches start ++ (position, target) ::
        (second.branches (position + 1) ++ (last, stop) :: third.branches (last + 1)) := by
  simp [Nat.add_assoc, Nat.add_comm 1]

/-- No two branches stand at one position. -/
theorem nodup_branches (piece : Piece) (start : Nat) :
    ((piece.branches start).map Prod.fst).Nodup := by
  have positions : (piece.ops.zipIdx start).Pairwise fun first second => first.2 < second.2 := by
    rw [← List.pairwise_map, List.zipIdx_map_snd]
    exact List.pairwise_lt_range' 1
  rw [List.Nodup, List.pairwise_map, branches]
  refine positions.filterMap _ ?_
  intro first second before branch isFirst other isSecond
  rcases Option.map_eq_some_iff.mp isFirst with ⟨_, -, rfl⟩
  rcases Option.map_eq_some_iff.mp isSecond with ⟨_, -, rfl⟩
  exact Nat.ne_of_lt before

end Piece

namespace Offsets

/-- The positions behind one more instruction without names. -/
def next (offsets : Offsets) : Offsets :=
  { offsets with ops := offsets.ops + 1 }

theorem after_one (offsets : Offsets) (piece : Piece) :
    offsets.after piece 1 = (offsets.after piece 0).next := rfl

theorem after_append (offsets : Offsets) (first second : Piece) (more : Nat) :
    offsets.after (first ++ second) more = (offsets.after first 0).after second more := by
  simp [after, Nat.add_assoc]

theorem after_ofOp (offsets : Offsets) (op : Instruction) :
    offsets.after (Piece.ofOp op) 0 = offsets.next := rfl

theorem after_append_ofOp (offsets : Offsets) (piece : Piece) (op : Instruction) :
    offsets.after (piece ++ Piece.ofOp op) 0 = offsets.after piece 1 := by
  rw [after_append]
  rfl

end Offsets

namespace Code

/-- The positions behind some code. -/
def offsets (code : Code) : Offsets :=
  ⟨code.ops.size, code.keys.size, code.keySets.size⟩

/-- The code with a piece behind it. -/
def add (code : Code) (piece : Piece) : Code :=
  ⟨code.ops ++ piece.ops.toArray, code.keys ++ piece.keys.toArray,
    code.keySets ++ piece.keySets.toArray⟩

@[simp]
theorem offsets_add (code : Code) (piece : Piece) :
    (code.add piece).offsets = code.offsets.after piece 0 := by
  simp [offsets, add, Offsets.after]

@[simp]
theorem offsets_add_ofOp (code : Code) (op : Instruction) :
    (code.add (Piece.ofOp op)).offsets = code.offsets.next := by
  rw [offsets_add]
  rfl

@[simp]
theorem size_ops_add (code : Code) (piece : Piece) :
    (code.add piece).ops.size = code.ops.size + piece.ops.length := by
  simp [add]

@[simp]
theorem add_empty (code : Code) : code.add Piece.empty = code := by
  simp [add, Piece.empty]

theorem add_append (code : Code) (first second : Piece) :
    code.add (first ++ second) = (code.add first).add second := by
  simp [add, Array.append_assoc]

theorem emit_eq_add (code : Code) (op : Instruction) : code.emit op = code.add (Piece.ofOp op) := by
  simp [emit, add, Piece.ofOp]

theorem emitTest_eq_add (code : Code) (slot : Nat) (test : Test) :
    code.emitTest slot test = code.add (Piece.ofTest code.offsets slot test) := by
  cases test <;> simp [emitTest, emit, add, Piece.ofTest, Piece.ofOp, offsets]

/-- A branch that waits behind some code gets the position behind the piece that follows it. -/
theorem land_add_jump (code : Code) (branch : Branch) (old : Nat) (piece : Piece) :
    (code.add (Piece.ofOp (.jump branch old) ++ piece)).land code.ops.size =
      code.add
        (Piece.ofOp (.jump branch (code.ops.size + 1 + piece.ops.length)) ++ piece) := by
  have size : code.ops.size + (piece.ops.length + 1) = code.ops.size + 1 + piece.ops.length := by
    omega
  simp only [land, add, Piece.ops_append, Piece.ops_ofOp, Piece.keys_append, Piece.keys_ofOp,
    Piece.keySets_append, Piece.keySets_ofOp, mk.injEq, and_true]
  apply Array.toList_inj.mp
  simp [List.modify_eq_take_drop, Instruction.retarget, size]

end Code

end JsonShape
