import JsonShape.Proofs.Schema.Numbering

/-!
# What emitted texts compile to

`Schema.translation` writes the program of a schema down by recursion on the schema. A node first
settles what its flags decide, `null` and absence, and then tests the kind of its value. An object
node goes on with its declared fields, each in the slot with the next number, and at last asks for
unknown names if they are rejected. Every branch leads to the end of a node, forwards.

Compiling the emitted text gives this program. The formula of a node becomes a conjunction whose
first part is the test of the kind (`toExpr_bodyFormula`), and the piece of that expression is the
translation: the conditionals that the flags write all have a constant consequent, so the pieces of
their alternatives follow behind one branch each.
-/

namespace JsonShape

open Check

/-- The positions behind some more instructions without names. -/
def Offsets.skip (offsets : Offsets) (count : Nat) : Offsets :=
  { offsets with ops := offsets.ops + count }

theorem Offsets.skip_skip (offsets : Offsets) (first second : Nat) :
    (offsets.skip first).skip second = offsets.skip (first + second) := by
  simp [skip, Nat.add_assoc]

namespace Field

/-! ### The translation -/

/-- A test that decides what a node accepts, as a flag says, if it succeeds. -/
def settleOps (test : Instruction) (accepted : Bool) (stop : Nat) : List Instruction :=
  if accepted then [test, .jump .ifTrue stop] else [test, .not, .jump .ifFalse stop]

def settleCount (accepted : Bool) : Nat :=
  if accepted then 2 else 3

/-- What passes over the code of a declared field that is missing. -/
def missingOps (optional : Bool) (stop : Nat) : List Instruction :=
  if optional then [.not, .jump .ifTrue stop] else [.jump .ifFalse stop]

def missingCount (optional : Bool) : Nat :=
  if optional then 2 else 1

def guardOps (flags : Flags) (slot stop : Nat) : List Instruction :=
  settleOps (.isNull slot) flags.nullable stop ++ settleOps (.isAbsent slot) flags.optional stop

def guardCount (flags : Flags) : Nat :=
  settleCount flags.nullable + settleCount flags.optional

mutual

/-- The number of instructions of a field. -/
def opCount (mode : UnknownKeys) : Field → Nat
  | .leaf _ flags => guardCount flags + 1
  | .object members flags => guardCount flags + 1 + memberOpCount mode members

/-- The number of instructions of an object node behind the test of its kind. -/
def memberOpCount (mode : UnknownKeys) : List (String × Field) → Nat
  | [] =>
      match mode with
      | .ignore => 0
      | .reject => 2
  | (_, field) :: rest =>
      2 + missingCount field.flags.optional + field.opCount mode + memberOpCount mode rest

end

mutual

/-- The sets of declared names of all object nodes inside a field, each behind those inside it. -/
def nodeKeySets : Field → List (List String)
  | .leaf _ _ => []
  | .object members _ => memberKeySets members ++ [Members.sortedNames (Members.names members)]

def memberKeySets : List (String × Field) → List (List String)
  | [] => []
  | (_, field) :: rest => nodeKeySets field ++ memberKeySets rest

end

/-- The sets of names of a field: there are none if unknown names are ignored. -/
def keySets (mode : UnknownKeys) (field : Field) : List (List String) :=
  match mode with
  | .ignore => []
  | .reject => field.nodeKeySets

mutual

/-- The instructions of a field in a slot, if they begin at the given positions. The declared
field with the name at some position of the table of names has the slot behind that position. -/
def opsAt (mode : UnknownKeys) (slot : Nat) (start : Offsets) : Field → List Instruction
  | .leaf type flags =>
      let stop := start.ops + (guardCount flags + 1)
      guardOps flags slot stop ++ [.isKind type.kind slot]
  | .object members flags =>
      let stop := start.ops + (guardCount flags + 1 + memberOpCount mode members)
      guardOps flags slot stop ++ .isKind .object slot ::
        memberOps mode slot stop (start.skip (guardCount flags + 1)) members

/-- The instructions of an object node that ends at `stop` behind the test of its kind. -/
def memberOps (mode : UnknownKeys) (slot stop : Nat) (start : Offsets) :
    List (String × Field) → List Instruction
  | [] =>
      match mode with
      | .ignore => []
      | .reject => [.jump .ifFalse stop, .onlyKeys slot start.keySets]
  | (_, field) :: rest =>
      let inner : Offsets :=
        ⟨start.ops + 2 + missingCount field.flags.optional, start.keys + 1, start.keySets⟩
      let behind : Offsets :=
        ⟨inner.ops + field.opCount mode, inner.keys + field.declaredNames.length,
          inner.keySets + (field.keySets mode).length⟩
      [.jump .ifFalse stop, .has slot start.keys] ++
        missingOps field.flags.optional behind.ops ++
        opsAt mode (start.keys + 1) inner field ++ memberOps mode slot stop behind rest

end

/-- The code of a field in a slot. -/
def code (mode : UnknownKeys) (slot : Nat) (start : Offsets) (field : Field) : Piece :=
  ⟨field.opsAt mode slot start, field.declaredNames, field.keySets mode⟩

@[simp]
theorem length_settleOps (test : Instruction) (accepted : Bool) (stop : Nat) :
    (settleOps test accepted stop).length = settleCount accepted := by
  cases accepted <;> rfl

@[simp]
theorem length_missingOps (optional : Bool) (stop : Nat) :
    (missingOps optional stop).length = missingCount optional := by
  cases optional <;> rfl

@[simp]
theorem length_guardOps (flags : Flags) (slot stop : Nat) :
    (guardOps flags slot stop).length = guardCount flags := by
  simp [guardOps, guardCount]

mutual

theorem length_opsAt (mode : UnknownKeys) : (field : Field) → ∀ (slot : Nat) (start : Offsets),
    (field.opsAt mode slot start).length = field.opCount mode
  | .leaf _ _, _, _ => by simp [opsAt, opCount]
  | .object members _, slot, start => by
      simp [opsAt, opCount, length_memberOps mode members, Nat.add_assoc, Nat.add_comm 1]

theorem length_memberOps (mode : UnknownKeys) : (members : List (String × Field)) →
    ∀ (slot stop : Nat) (start : Offsets),
      (memberOps mode slot stop start members).length = memberOpCount mode members
  | [], _, _, _ => by cases mode <;> rfl
  | (_, field) :: rest, slot, stop, start => by
      simp [memberOps, memberOpCount, length_opsAt mode field, length_memberOps mode rest]
      omega

end

/-! ### The code of conditionals with a constant consequent -/

section Conditionals

variable {slot : Nat} {start : Offsets}

theorem piece_cond_constant (condition alternative : Expr) (accepted : Bool) (start : Offsets) :
    let test := condition.piece start (!accepted)
    let otherwise := alternative.piece (start.after test 1) false
    (Expr.cond condition (.constant accepted) alternative).piece start false =
      test ++ Piece.ofOp (.jump (if accepted then .ifTrue else .ifFalse)
        (start.ops + test.ops.length + 1 + otherwise.ops.length)) ++ otherwise := by
  cases accepted <;> rfl

/-- A conditional that settles what a flag says, in front of the rest of a node. -/
theorem piece_settle {asked : Test} {test : Instruction}
    (one : Piece.ofTest start slot asked = Piece.ofOp test) (accepted : Bool) (body : Expr) :
    let rest := body.piece (start.skip (settleCount accepted)) false
    (Expr.cond (.test slot asked) (.constant accepted) body).piece start false =
      ⟨settleOps test accepted (start.ops + settleCount accepted + rest.ops.length) ++ rest.ops,
        rest.keys, rest.keySets⟩ := by
  rw [piece_cond_constant, Expr.piece, one]
  cases accepted <;> rfl

/-- A conditional that passes over a declared field that is missing. -/
theorem piece_missing (name : String) (optional : Bool) (field : Expr) :
    let rest := field.piece
      ⟨start.ops + 1 + missingCount optional, start.keys + 1, start.keySets⟩ false
    (Expr.cond (.not (.test slot (.has name))) (.constant optional) field).piece start false =
      ⟨.has slot start.keys :: missingOps optional
          (start.ops + 1 + missingCount optional + rest.ops.length) ++ rest.ops,
        name :: rest.keys, rest.keySets⟩ := by
  rw [piece_cond_constant, Expr.piece, Expr.piece, Bool.not_not]
  cases optional <;> rfl

variable {number : List String → Nat} {path : List String}

theorem piece_guardedFormula (numbered : number path = slot) (flags : Flags) (body : Formula) :
    let rest := (body.toExpr number).piece (start.skip (guardCount flags)) false
    ((guardedFormula path flags body).toExpr number).piece start false =
      ⟨guardOps flags slot (start.ops + guardCount flags + rest.ops.length) ++ rest.ops,
        rest.keys, rest.keySets⟩ := by
  intro rest
  let between := start.skip (settleCount flags.nullable)
  have absent : Piece.ofTest between slot .isAbsent = Piece.ofOp (.isAbsent slot) := rfl
  have null : Piece.ofTest start slot .isNull = Piece.ofOp (.isNull slot) := rfl
  have total : settleCount flags.nullable + settleCount flags.optional = guardCount flags := rfl
  have outer : start.ops + settleCount flags.nullable + (settleCount flags.optional +
      rest.ops.length) = start.ops + guardCount flags + rest.ops.length := by
    rw [← total]
    omega
  have inner : between.ops + settleCount flags.optional + rest.ops.length =
      start.ops + guardCount flags + rest.ops.length := by
    rw [← outer]
    exact Nat.add_assoc _ _ _
  simp only [guardedFormula, Formula.toExpr, numbered]
  rw [piece_settle null, piece_settle absent, Offsets.skip_skip, total]
  change (⟨_ ++ (settleOps _ _ (between.ops + settleCount flags.optional + rest.ops.length) ++ _),
    _, _⟩ : Piece) = _
  rw [List.length_append, length_settleOps, outer, inner, guardOps, List.append_assoc]

/-! ### The code of a node -/

/-- A conjunction of a first part and others; without others it is the first part. -/
def conjunction (first : Expr) : List Expr → Expr
  | [] => first
  | part :: rest => .and first (part :: rest)

theorem conjoin_conjunction (asked : Test) (parts : List Expr) (last : Expr) :
    (conjunction (.test slot asked) parts).conjoin last =
      conjunction (.test slot asked) (parts ++ [last]) := by
  cases parts <;> rfl

theorem piece_conjunction (asked : Test) (parts : List Expr) :
    let head := Piece.ofTest start slot asked
    let tail := Expr.pieces (start.after head 1) parts
    (conjunction (.test slot asked) parts).piece start false =
      head ++ Piece.guarded (start.ops + head.ops.length + Piece.guardedLength tail) tail := by
  cases parts with
  | nil =>
      change _ = Piece.mk _ _ _
      simp [conjunction, Expr.piece, Piece.invertIf, Piece.guarded, Piece.empty, Expr.pieces]
  | cons part rest => rfl

/-- The parts of the conjunction of an object node behind the test of its kind. -/
def memberExprs (mode : UnknownKeys) (number : List String → Nat) (path : List String)
    (declared : List String) : List (String × Field) → List Expr
  | [] =>
      match mode with
      | .ignore => []
      | .reject => [.test (number path) (.onlyKeys (Members.sortedNames declared))]
  | (name, field) :: rest =>
      (memberFormula path name field.flags.optional
          (field.formulaAt mode (path ++ [name]))).toExpr number ::
        memberExprs mode number path declared rest

theorem toExpr_bodyFormula (mode : UnknownKeys) (declared : List String) {asked : Test}
    (members : List (String × Field)) {before : Formula} {parts : List Expr}
    (read : before.toExpr number = conjunction (.test slot asked) parts) :
    (unknownFormula mode path declared (membersFormula mode path members before)).toExpr number =
      conjunction (.test slot asked) (parts ++ memberExprs mode number path declared members) := by
  induction members generalizing before parts with
  | nil =>
      cases mode with
      | ignore => simpa [unknownFormula, membersFormula, memberExprs] using read
      | reject =>
          rw [unknownFormula, membersFormula, Formula.toExpr, read, conjoin_conjunction]
          rfl
  | cons member rest ih =>
      let part := memberFormula path member.1 member.2.flags.optional
        (member.2.formulaAt mode (path ++ [member.1]))
      have added : (Formula.and before part).toExpr number =
          conjunction (.test slot asked) (parts ++ [part.toExpr number]) := by
        rw [Formula.toExpr, read, conjoin_conjunction]
      rw [membersFormula, ih added, memberExprs, List.append_assoc, List.singleton_append]

end Conditionals

/-- The sets of names of an object node behind those of the members before the given ones. -/
def restKeySets (mode : UnknownKeys) (declared : List String) (members : List (String × Field)) :
    List (List String) :=
  match mode with
  | .ignore => []
  | .reject => memberKeySets members ++ [Members.sortedNames declared]

theorem restKeySets_cons (mode : UnknownKeys) (declared : List String) (name : String)
    (field : Field) (rest : List (String × Field)) :
    restKeySets mode declared ((name, field) :: rest) =
      field.keySets mode ++ restKeySets mode declared rest := by
  cases mode with
  | ignore => rfl
  | reject => simp [restKeySets, keySets, memberKeySets]

/-- The code of an object node behind what its flags decide, if its members are as they should be.
-/
theorem piece_bodyFormula {mode : UnknownKeys} {number : List String → Nat} {path : List String}
    {slot : Nat} {start : Offsets} (numbered : number path = slot)
    {members : List (String × Field)} (declared : List String)
    (parts : ∀ stop : Nat, Piece.guarded stop
        (Expr.pieces (start.skip 1).next (memberExprs mode number path declared members)) =
      ⟨memberOps mode slot stop (start.skip 1) members, declaredNamesIn members,
        restKeySets mode declared members⟩) :
    ((unknownFormula mode path declared
        (membersFormula mode path members (.test path (.isKind .object)))).toExpr number).piece
          start false =
      ⟨.isKind .object slot ::
          memberOps mode slot (start.ops + 1 + memberOpCount mode members) (start.skip 1) members,
        declaredNamesIn members, restKeySets mode declared members⟩ := by
  have kind : (Formula.test path (.isKind .object)).toExpr number =
      conjunction (.test slot (.isKind .object)) [] := by
    rw [Formula.toExpr, numbered]
    rfl
  let tail := Expr.pieces (start.skip 1).next (memberExprs mode number path declared members)
  have length : Piece.guardedLength tail = memberOpCount mode members := by
    rw [← Piece.length_ops_guarded 0, parts, length_memberOps]
  rw [toExpr_bodyFormula mode declared members kind, List.nil_append, piece_conjunction]
  change Piece.ofOp (.isKind .object slot) ++
    Piece.guarded (start.ops + 1 + Piece.guardedLength tail) tail = _
  rw [length, parts]
  rfl

mutual

/-- Where the paths are numbered in order, the code of the formula of a field is the code of the
field. -/
theorem piece_formulaAt (mode : UnknownKeys) (number : List String → Nat) : (field : Field) →
    ∀ (start : Offsets) {path : List String} {slot : Nat},
      field.NumberedBy number path slot (start.keys + 1) →
        ((field.formulaAt mode path).toExpr number).piece start false = field.code mode slot start
  | .leaf type flags, start, path, slot, numbered => by
      rw [formulaAt, piece_guardedFormula numbered, Formula.toExpr, numbered]
      cases mode <;> rfl
  | .object members flags, start, path, slot, ⟨numbered, inside⟩ => by
      have parts (stop : Nat) := guarded_memberExprs mode number (Members.names members) members
        ((start.skip (guardCount flags)).skip 1) stop numbered inside
      have body := piece_bodyFormula numbered (Members.names members) parts
      let count := guardCount flags + 1 + memberOpCount mode members
      -- guard and body lead to the same end, each counted from where it begins
      have stop : start.ops + guardCount flags + (memberOpCount mode members + 1) =
          start.ops + count := by
        omega
      have innerStop : (start.skip (guardCount flags)).ops + 1 + memberOpCount mode members =
          start.ops + count := by
        change start.ops + guardCount flags + 1 + memberOpCount mode members = start.ops + count
        omega
      rw [formulaAt, piece_guardedFormula numbered, body]
      simp only [List.length_cons, length_memberOps, Offsets.skip_skip, stop, innerStop]
      cases mode <;> rfl

theorem guarded_memberExprs (mode : UnknownKeys) (number : List String → Nat)
    (declared : List String) : (members : List (String × Field)) →
      ∀ (start : Offsets) (stop : Nat) {path : List String} {slot : Nat}, number path = slot →
        MembersNumberedBy number path (start.keys + 1) members →
          Piece.guarded stop
              (Expr.pieces start.next (memberExprs mode number path declared members)) =
            ⟨memberOps mode slot stop start members, declaredNamesIn members,
              restKeySets mode declared members⟩
  | [], start, stop, path, slot, numbered, _ => by
      cases mode with
      | ignore => rfl
      | reject =>
          simp only [memberExprs, numbered]
          rfl
  | (name, field) :: rest, start, stop, path, slot, numbered, ⟨inside, others⟩ => by
      let optional := field.flags.optional
      let inner : Offsets := ⟨start.ops + 2 + missingCount optional, start.keys + 1, start.keySets⟩
      let behind : Offsets :=
        ⟨inner.ops + field.opCount mode, inner.keys + field.declaredNames.length,
          inner.keySets + (field.keySets mode).length⟩
      let head : Piece :=
        ⟨.has slot start.keys :: missingOps optional behind.ops ++
            field.opsAt mode (start.keys + 1) inner,
          name :: field.declaredNames, field.keySets mode⟩
      have fieldCode := piece_formulaAt mode number field inner inside
      have first : ((memberFormula path name optional
          (field.formulaAt mode (path ++ [name]))).toExpr number).piece start.next false =
            head := by
        simp only [memberFormula, Formula.toExpr, numbered]
        rw [piece_missing]
        change (⟨_ :: missingOps optional (inner.ops + (Expr.piece inner false _).ops.length) ++
          (Expr.piece inner false _).ops, _ :: (Expr.piece inner false _).keys,
          (Expr.piece inner false _).keySets⟩ : Piece) = _
        rw [fieldCode, code, length_opsAt]
        rfl
      have placed : start.next.after head 1 = behind.next := by
        simp [Offsets.after, Offsets.next, head, behind, inner, length_opsAt]
        omega
      rw [Nat.add_right_comm] at others
      have later := guarded_memberExprs mode number declared rest behind stop numbered others
      rw [memberExprs, Expr.pieces, first, Piece.guarded, placed, later, memberOps,
        restKeySets_cons]
      rfl

end

/-! ### Which instructions occur -/

/-- What an instruction does depends on a value or on the accumulator. -/
def Conditional : Instruction → Prop
  | .constant _ | .jump .always _ => False
  | _ => True

theorem conditional_settleOps {test : Instruction} (asks : Conditional test) (accepted : Bool)
    (stop : Nat) : ∀ op ∈ settleOps test accepted stop, Conditional op := by
  intro op isOp
  cases accepted <;> simp only [settleOps, Bool.false_eq_true, if_false, if_true, List.mem_cons,
    List.not_mem_nil, or_false] at isOp
  · rcases isOp with rfl | rfl | rfl
    · exact asks
    all_goals trivial
  · rcases isOp with rfl | rfl
    · exact asks
    · trivial

theorem conditional_guardOps (flags : Flags) (slot stop : Nat) :
    ∀ op ∈ guardOps flags slot stop, Conditional op := by
  intro op isOp
  rcases List.mem_append.mp isOp with first | second
  · have asks : Conditional (.isNull slot) := trivial
    exact conditional_settleOps asks flags.nullable stop op first
  · have asks : Conditional (.isAbsent slot) := trivial
    exact conditional_settleOps asks flags.optional stop op second

theorem conditional_missingOps (optional : Bool) (stop : Nat) :
    ∀ op ∈ missingOps optional stop, Conditional op := by
  cases optional <;> simp [missingOps, Conditional]

mutual

theorem conditional_opsAt (mode : UnknownKeys) : (field : Field) → ∀ (slot : Nat) (start : Offsets),
    ∀ op ∈ field.opsAt mode slot start, Conditional op
  | .leaf _ flags, slot, _, op, isOp => by
      rcases List.mem_append.mp isOp with guard | kind
      · exact conditional_guardOps flags slot _ op guard
      · rw [List.mem_singleton.mp kind]
        trivial
  | .object members flags, slot, _, op, isOp => by
      rcases List.mem_append.mp isOp with guard | body
      · exact conditional_guardOps flags slot _ op guard
      rcases List.mem_cons.mp body with rfl | inside
      · trivial
      · exact conditional_memberOps mode members slot _ _ op inside

theorem conditional_memberOps (mode : UnknownKeys) : (members : List (String × Field)) →
    ∀ (slot stop : Nat) (start : Offsets),
      ∀ op ∈ memberOps mode slot stop start members, Conditional op
  | [], slot, stop, start, op, isOp => by
      cases mode with
      | ignore => cases isOp
      | reject =>
          simp only [memberOps, List.mem_cons, List.not_mem_nil, or_false] at isOp
          rcases isOp with rfl | rfl <;> trivial
  | (_, field) :: rest, slot, stop, start, op, isOp => by
      simp only [memberOps, List.mem_append, List.mem_cons, List.not_mem_nil, or_false] at isOp
      rcases isOp with (((rfl | rfl) | missing) | inside) | later
      · trivial
      · trivial
      · exact conditional_missingOps _ _ op missing
      · exact conditional_opsAt mode field _ _ op inside
      · exact conditional_memberOps mode rest slot stop _ op later

end

end Field

/-- The program of a schema, written down by recursion on the schema. -/
def Schema.translation (mode : UnknownKeys) (schema : Schema) : Program :=
  ⟨(schema.toField.opsAt mode 0 ⟨0, 0, 0⟩).toArray, (.root :: schema.toField.slotsAt 0 1).toArray,
    schema.toField.declaredNames.toArray, (schema.toField.keySets mode).toArray, schema.emit mode⟩

/-- The emitted text of a schema is compiled to its translation, in which no instruction is a
constant or an unconditional branch. -/
theorem Schema.compile_emit_eq_translation (mode : UnknownKeys) (schema : Schema)
    (wellFormed : schema.toField.WellFormed) :
    Program.compile (schema.emit mode) = .ok (schema.translation mode) ∧
      ∀ op ∈ (schema.translation mode).ops,
        (∀ value : Bool, op ≠ .constant value) ∧ ∀ target : Nat, op ≠ .jump .always target := by
  constructor
  · have code := Field.piece_formulaAt mode _ schema.toField ⟨0, 0, 0⟩
      (Field.numberedBy_internPaths mode wellFormed)
    rw [schema.compile_emit, program, Program.ofFormula, Program.ofExpr_eq, Expr.whole, code,
      Field.internPaths_root mode wellFormed]
    rfl
  · intro op isOp
    have depends := Field.conditional_opsAt mode schema.toField 0 ⟨0, 0, 0⟩ op
      (List.mem_toArray.mp isOp)
    constructor
    · rintro value rfl
      exact depends
    · rintro target rfl
      exact depends

/-- An optional object node with a nullable string in it, with unknown names rejected. -/
theorem Schema.compile_emit_eq_translation_nested :
    let schema : Schema :=
      ⟨[("a", Field.optional (.object [("b", Field.nullable .string)] {})), ("c", .number)], {}⟩
    let ops : List Instruction :=
      [.isNull 0, .not, .jump .ifFalse 40, .isAbsent 0, .not, .jump .ifFalse 40, .isKind .object 0,
        .jump .ifFalse 40, .has 0 0, .not, .jump .ifTrue 28,
          .isNull 1, .not, .jump .ifFalse 28, .isAbsent 1, .jump .ifTrue 28, .isKind .object 1,
          .jump .ifFalse 28, .has 1 1, .jump .ifFalse 26,
            .isNull 2, .jump .ifTrue 26, .isAbsent 2, .not, .jump .ifFalse 26, .isKind .string 2,
          .jump .ifFalse 28, .onlyKeys 1 0,
        .jump .ifFalse 40, .has 0 2, .jump .ifFalse 38,
          .isNull 3, .not, .jump .ifFalse 38, .isAbsent 3, .not, .jump .ifFalse 38,
          .isKind .number 3,
        .jump .ifFalse 40, .onlyKeys 0 1]
    schema.toField.WellFormed ∧
      schema.translation .reject =
        ⟨ops.toArray, #[.root, .member 0 "a", .member 1 "b", .member 0 "c"], #["a", "b", "c"],
          #[["b"], ["a", "c"]], schema.emit .reject⟩ ∧
      Program.compile (schema.emit .reject) = .ok (schema.translation .reject) ∧
        ∀ op ∈ (schema.translation .reject).ops,
          (∀ value : Bool, op ≠ .constant value) ∧ ∀ target : Nat, op ≠ .jump .always target := by
  intro schema ops
  have wellFormed : schema.toField.WellFormed := by
    refine ⟨by decide, ?_, trivial, trivial⟩
    exact ⟨by decide, trivial, trivial⟩
  exact ⟨wellFormed, rfl, schema.compile_emit_eq_translation .reject wellFormed⟩

end JsonShape
