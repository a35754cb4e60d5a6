import JsonShape.Proofs.Program.Execution
import JsonShape.Proofs.Program.Lowering

/-!
# Programs compute their expressions

The piece of an expression, wherever it stands in a program, sets the accumulator to the truth
value of the expression, inverted if the piece is inverted, whatever the accumulator was before.
`Leads` says where the machine gets and with which accumulator, for all faithful frames at once.

The parts of a conjunction behind its first part are the exception: their code begins with a
branch and therefore depends on the accumulator, which then holds the value of the parts so far.
-/

namespace JsonShape

open Check

/-- The items stand one behind the other in a table, from an offset on. -/
def Occupies {Item : Type} (items : List Item) (table : Array Item) (offset : Nat) : Prop :=
  ∀ (index : Nat) (item : Item), items[index]? = some item → table[offset + index]? = some item

namespace Occupies

variable {Item : Type} {first second : List Item} {table : Array Item} {offset : Nat}

theorem left (occupies : Occupies (first ++ second) table offset) :
    Occupies first table offset := by
  intro index item found
  apply occupies index item
  rw [List.getElem?_append_left (List.getElem?_eq_some_iff.mp found).1, found]

theorem right (occupies : Occupies (first ++ second) table offset) :
    Occupies second table (offset + first.length) := by
  intro index item found
  rw [Nat.add_assoc]
  apply occupies (first.length + index) item
  rw [List.getElem?_append_right (Nat.le_add_right _ _), Nat.add_sub_cancel_left, found]

theorem self (items : List Item) : Occupies items items.toArray 0 := by
  intro index item found
  rw [Nat.zero_add, List.getElem?_toArray, found]

end Occupies

/-- A piece stands in a program from the given positions on. -/
structure Piece.At (piece : Piece) (program : Program) (start : Offsets) : Prop where
  ops : Occupies piece.ops program.ops start.ops
  keys : Occupies piece.keys program.keys start.keys
  keySets : Occupies piece.keySets program.keySets start.keySets

namespace Piece.At

variable {program : Program} {start : Offsets} {first second : Piece}

theorem left (placed : (first ++ second).At program start) : first.At program start :=
  ⟨placed.ops.left, placed.keys.left, placed.keySets.left⟩

theorem right (placed : (first ++ second).At program start) :
    second.At program (start.after first 0) :=
  ⟨placed.ops.right, placed.keys.right, placed.keySets.right⟩

theorem op {op : Instruction} (placed : (ofOp op).At program start) :
    program.ops[start.ops]? = some op :=
  placed.ops 0 op rfl

end Piece.At

namespace Program

variable {program : Program} {subject : Option Json}

/-- With whatever faithful frame, the machine gets from one position and accumulator to another,
and the frame is still faithful then. -/
def Leads (program : Program) (subject : Option Json) (start : Nat) (before : Bool) (stop : Nat)
    (after : Bool) : Prop :=
  ∀ frame : Frame, frame.Faithful program.slots subject →
    ∃ last : Frame, last.Faithful program.slots subject ∧
      Runs program subject ⟨start, before, frame⟩ ⟨stop, after, last⟩

namespace Leads

variable {start middle stop : Nat} {before between after : Bool}

theorem refl (position : Nat) (accumulator : Bool) :
    Leads program subject position accumulator position accumulator := by
  intro frame faithful
  exact ⟨frame, faithful, .done _⟩

theorem trans (first : Leads program subject start before middle between)
    (second : Leads program subject middle between stop after) :
    Leads program subject start before stop after := by
  intro frame faithful
  rcases first frame faithful with ⟨frameBetween, faithfulBetween, runsFirst⟩
  rcases second frameBetween faithfulBetween with ⟨last, faithfulLast, runsSecond⟩
  exact ⟨last, faithfulLast, runsFirst.trans runsSecond⟩

/-- An instruction that changes neither the frame nor depends on it. -/
theorem of_step {op : Instruction} (fetched : program.ops[start]? = some op)
    (stepped : ∀ frame, program.step subject ⟨start, before, frame⟩ op = .ok ⟨stop, after, frame⟩)
    (forward : start < stop) : Leads program subject start before stop after := by
  intro frame faithful
  exact ⟨frame, faithful, .single fetched (stepped frame) forward⟩

theorem constant {value : Bool} (fetched : program.ops[start]? = some (.constant value)) :
    Leads program subject start before (start + 1) value :=
  of_step fetched (fun _ => rfl) (Nat.lt_succ_self start)

theorem not (subject : Option Json) (before : Bool)
    (fetched : program.ops[start]? = some .not) :
    Leads program subject start before (start + 1) !before :=
  of_step fetched (fun _ => rfl) (Nat.lt_succ_self start)

theorem jump (subject : Option Json) (before : Bool) {branch : Branch} {target : Nat}
    (fetched : program.ops[start]? = some (.jump branch target)) (forward : start < target) :
    Leads program subject start before (if branch.taken before then target else start + 1)
      before := by
  refine of_step fetched (fun _ => rfl) ?_
  split <;> omega

/-- The instruction of a test, whose name or set of names stands at the given positions. -/
theorem test (ordered : Slot.Ordered program.slots) {offsets : Offsets} {slot : Nat}
    (inside : slot < program.slots.size) (asked : Test)
    (placed : (Piece.ofTest offsets slot asked).At program offsets) :
    Leads program subject offsets.ops before (offsets.ops + 1)
      (asked.holds (Slot.value program.slots subject slot)) := by
  intro frame faithful
  have applied := applyTest_of_faithful ordered ⟨offsets.ops, before, frame⟩ faithful inside asked
  rcases applied with ⟨last, tested, lastFaithful⟩
  refine ⟨last, lastFaithful, ?_⟩
  cases asked with
  | has key =>
      have name := placed.keys 0 key rfl
      refine .single (placed.ops 0 _ rfl) ?_ (Nat.lt_succ_self _)
      simp only [step, show program.keys[offsets.keys]? = some key from name, tested]
  | onlyKeys keys =>
      have names := placed.keySets 0 keys rfl
      refine .single (placed.ops 0 _ rfl) ?_ (Nat.lt_succ_self _)
      simp only [step, show program.keySets[offsets.keySets]? = some keys from names, tested]
  | _ => exact .single (placed.ops 0 _ rfl) tested (Nat.lt_succ_self _)

end Leads

/-- The truth value of a test of a slot when a value is under test. -/
def truth (program : Program) (subject : Option Json) (slot : Nat) (test : Test) : Bool :=
  test.holds (Slot.value program.slots subject slot)

/-- Wherever the piece of the expression stands in the program, it computes the expression. -/
def Computes (program : Program) (subject : Option Json) (expr : Expr) : Prop :=
  ∀ (start : Offsets) (inverted before : Bool), (expr.piece start inverted).At program start →
    Leads program subject start.ops before
      (start.ops + (expr.piece start inverted).ops.length)
      (expr.eval (program.truth subject) ^^ inverted)

theorem Computes.upright {expr : Expr} (computes : Computes program subject expr)
    {start : Offsets} (placed : (expr.piece start false).At program start) (before : Bool) :
    Leads program subject start.ops before (start.ops + (expr.piece start false).ops.length)
      (expr.eval (program.truth subject)) := by
  have computed := computes start false before placed
  rw [Bool.xor_false] at computed
  exact computed

theorem leads_invertIf {piece : Piece} {start : Offsets} {inverted before value : Bool}
    (placed : (piece.invertIf inverted).At program start)
    (leads : Leads program subject start.ops before (start.ops + piece.ops.length) value) :
    Leads program subject start.ops before
      (start.ops + (piece.invertIf inverted).ops.length) (value ^^ inverted) := by
  cases inverted with
  | false =>
      rw [Bool.xor_false]
      exact leads
  | true =>
      have inversion := Leads.not subject value placed.right.op
      rw [Bool.xor_true]
      simpa [Offsets.after, Nat.add_assoc] using leads.trans inversion

theorem Piece.At.of_invertIf {piece : Piece} {start : Offsets} {inverted : Bool}
    (placed : (piece.invertIf inverted).At program start) : piece.At program start := by
  cases inverted with
  | false => exact placed
  | true => exact placed.left

/-- An expression that is inverted only behind its piece is computed if it is computed upright. -/
theorem computes_of_upright {expr : Expr} (piece : Offsets → Piece)
    (inverts : ∀ start inverted, expr.piece start inverted = (piece start).invertIf inverted)
    (upright : ∀ (start : Offsets) (before : Bool), (piece start).At program start →
      Leads program subject start.ops before (start.ops + (piece start).ops.length)
        (expr.eval (program.truth subject))) :
    Computes program subject expr := by
  intro start inverted before placed
  rw [inverts] at placed ⊢
  exact leads_invertIf placed (upright start before (Piece.At.of_invertIf placed))

theorem computes_constant (value : Bool) : Computes program subject (.constant value) := by
  refine computes_of_upright (fun _ => Piece.ofOp (.constant value)) (fun _ _ => rfl) ?_
  intro start before placed
  exact Leads.constant placed.op

theorem computes_test (ordered : Slot.Ordered program.slots) {slot : Nat}
    (inside : slot < program.slots.size) (test : Test) :
    Computes program subject (.test slot test) := by
  refine computes_of_upright (Piece.ofTest · slot test) (fun _ _ => rfl) ?_
  intro start before placed
  have length : (Piece.ofTest start slot test).ops.length = 1 := by
    cases test <;> rfl
  rw [length]
  exact Leads.test ordered inside test placed

theorem computes_not {operand : Expr} (inner : Computes program subject operand) :
    Computes program subject (.not operand) := by
  intro start inverted before placed
  have computed := inner start (!inverted) before placed
  rw [Bool.xor_not, ← Bool.not_xor] at computed
  exact computed

/-- The code behind the first part of a conjunction turns the value of the parts so far into the
value of all parts. -/
def ComputesParts (program : Program) (subject : Option Json) (parts : List Expr) : Prop :=
  ∀ (start : Offsets) (target : Nat) (before : Bool),
    let pieces := Expr.pieces start.next parts
    (Piece.guarded target pieces).At program start →
      target = start.ops + Piece.guardedLength pieces →
        Leads program subject start.ops before target
          (before && Expr.evalAll (program.truth subject) parts)

theorem computesParts_nil : ComputesParts program subject [] := by
  intro start target before pieces placed end_eq
  rw [Expr.evalAll, Bool.and_true, end_eq]
  exact Leads.refl start.ops before

theorem computesParts_cons {part : Expr} {rest : List Expr}
    (first : Computes program subject part) (others : ComputesParts program subject rest) :
    ComputesParts program subject (part :: rest) := by
  intro start target before pieces placed end_eq
  let head := part.piece start.next false
  let tail := Expr.pieces (start.next.after head 1) rest
  have whole : target = start.ops + (head.ops.length + 1 + Piece.guardedLength tail) := end_eq
  change (Piece.ofOp (.jump .ifFalse target) ++ head ++ Piece.guarded target tail).At program
    start at placed
  have branch := Leads.jump subject before placed.left.left.op (by omega)
  cases before with
  | false => exact branch
  | true =>
      -- the part is reached with the value of the parts before it, which is true
      have headPlaced : head.At program start.next := placed.left.right
      have computed := first.upright headPlaced true
      have tailPlaced := placed.right
      rw [Offsets.after_append] at tailPlaced
      have remaining := others (start.next.after head 0) target
        (part.eval (program.truth subject)) tailPlaced (by
          change target = start.ops + 1 + head.ops.length + 0 + Piece.guardedLength tail
          omega)
      exact (branch.trans computed).trans remaining

theorem computes_and {first : Expr} {rest : List Expr} (head : Computes program subject first)
    (parts : ComputesParts program subject rest) :
    Computes program subject (.and first rest) := by
  refine computes_of_upright _ (fun _ _ => rfl) ?_
  intro start before placed
  have computed := head.upright placed.left before
  have remaining := parts (start.after (first.piece start false) 0) _
    (first.eval (program.truth subject)) placed.right rfl
  rw [Piece.ops_append, List.length_append, Piece.length_ops_guarded, ← Nat.add_assoc]
  exact computed.trans remaining

/-- The code of a conditional whose consequent is a constant: a branch leaves the accumulator as it
is, or else the alternative sets it. -/
theorem leads_shortCircuit {alternative : Expr} (otherwise : Computes program subject alternative)
    {start : Offsets} {first : Piece} {branch : Branch} {before tested : Bool}
    (test : Leads program subject start.ops before (start.ops + first.ops.length) tested) :
    let second := alternative.piece (start.after first 1) false
    let target := start.ops + first.ops.length + 1 + second.ops.length
    let piece := first ++ Piece.ofOp (.jump branch target) ++ second
    piece.At program start →
      Leads program subject start.ops before (start.ops + piece.ops.length)
        (if branch.taken tested then tested else alternative.eval (program.truth subject)) := by
  intro second target piece placed
  have stop : start.ops + piece.ops.length = target := by
    simp only [piece, target, Piece.ops_append, List.length_append, Piece.ops_ofOp,
      List.length_singleton]
    omega
  have jumped := Leads.jump subject tested placed.left.right.op (by
    change start.ops + first.ops.length + 0 < target
    omega)
  rw [stop]
  by_cases taken : branch.taken tested
  · rw [if_pos taken] at jumped ⊢
    exact test.trans jumped
  · rw [if_neg taken] at jumped ⊢
    have secondPlaced := placed.right
    rw [Offsets.after_append_ofOp] at secondPlaced
    exact (test.trans jumped).trans (otherwise.upright secondPlaced tested)

theorem leads_conditional {condition consequent alternative : Expr}
    (test : Computes program subject condition) (whenTrue : Computes program subject consequent)
    (whenFalse : Computes program subject alternative) (start : Offsets) (before : Bool) :
    let first := condition.piece start false
    let middle := start.after first 1
    let second := consequent.piece middle false
    let last := middle.after second 1
    let third := alternative.piece last false
    let piece := first ++ Piece.ofOp (.jump .ifFalse last.ops) ++ second ++
      Piece.ofOp (.jump .always (last.ops + third.ops.length)) ++ third
    piece.At program start →
      Leads program subject start.ops before (start.ops + piece.ops.length)
        ((Expr.cond condition consequent alternative).eval (program.truth subject)) := by
  intro first middle second last third piece placed
  have stop : start.ops + piece.ops.length = last.ops + third.ops.length := by
    simp only [piece, Piece.ops_append, List.length_append, Piece.ops_ofOp, List.length_singleton]
    change _ = start.ops + first.ops.length + 1 + second.ops.length + 1 + third.ops.length
    omega
  have tested := test.upright placed.left.left.left.left before
  have branch := Leads.jump subject (condition.eval (program.truth subject))
    placed.left.left.left.right.op (by
      change start.ops + first.ops.length + 0 <
        start.ops + first.ops.length + 1 + second.ops.length + 1
      omega)
  have secondPlaced : second.At program middle := by
    have behind := placed.left.left.right
    rw [Offsets.after_append_ofOp] at behind
    exact behind
  have exitPlaced := placed.left.right
  rw [Offsets.after_append, Offsets.after_append_ofOp] at exitPlaced
  have thirdPlaced : third.At program last := by
    have behind := placed.right
    rw [Offsets.after_append_ofOp, Offsets.after_append, Offsets.after_append_ofOp] at behind
    exact behind
  rw [stop, Expr.eval]
  generalize condition.eval (program.truth subject) = value at tested branch ⊢
  cases value with
  | false =>
      exact (tested.trans branch).trans (whenFalse.upright thirdPlaced false)
  | true =>
      have computed := whenTrue.upright secondPlaced true
      have exit := Leads.jump subject (consequent.eval (program.truth subject))
        exitPlaced.op (by
          change start.ops + first.ops.length + 1 + second.ops.length + 0 <
            start.ops + first.ops.length + 1 + second.ops.length + 1 + third.ops.length
          omega)
      exact ((tested.trans branch).trans computed).trans exit

theorem computes_cond {condition consequent alternative : Expr}
    (test : Computes program subject condition) (whenTrue : Computes program subject consequent)
    (whenFalse : Computes program subject alternative) :
    Computes program subject (.cond condition consequent alternative) := by
  cases consequent with
  | constant value =>
      cases value with
      | false =>
          refine computes_of_upright _ (fun _ _ => rfl) ?_
          intro start before placed
          have value : (Expr.cond condition (.constant false) alternative).eval
                (program.truth subject) =
              if Branch.ifFalse.taken (condition.eval (program.truth subject) ^^ true) then
                condition.eval (program.truth subject) ^^ true
              else alternative.eval (program.truth subject) := by
            rw [Expr.eval]
            cases condition.eval (program.truth subject) <;> rfl
          rw [value]
          exact leads_shortCircuit whenFalse (test start true before placed.left.left) placed
      | true =>
          refine computes_of_upright _ (fun _ _ => rfl) ?_
          intro start before placed
          have value : (Expr.cond condition (.constant true) alternative).eval
                (program.truth subject) =
              if Branch.ifTrue.taken (condition.eval (program.truth subject) ^^ false) then
                condition.eval (program.truth subject) ^^ false
              else alternative.eval (program.truth subject) := by
            rw [Expr.eval]
            cases condition.eval (program.truth subject) <;> rfl
          rw [value]
          exact leads_shortCircuit whenFalse (test start false before placed.left.left) placed
  | _ =>
      refine computes_of_upright _ (fun _ _ => rfl) ?_
      intro start before placed
      exact leads_conditional test whenTrue whenFalse start before placed

mutual

/-- An expression is computed if the slots that it tests lie inside the table. -/
theorem computes (ordered : Slot.Ordered program.slots) : (expr : Expr) →
    (∀ slot ∈ expr.tested, slot < program.slots.size) → Computes program subject expr
  | .constant value, _ => computes_constant value
  | .test slot test, inside => computes_test ordered (inside slot (by simp [Expr.tested])) test
  | .not operand, inside => computes_not (computes ordered operand inside)
  | .and first rest, inside => by
      simp only [Expr.tested, List.mem_append] at inside
      exact computes_and (computes ordered first fun slot member => inside slot (.inl member))
        (computesParts ordered rest fun slot member => inside slot (.inr member))
  | .cond condition consequent alternative, inside => by
      simp only [Expr.tested, List.mem_append] at inside
      exact computes_cond
        (computes ordered condition fun slot member => inside slot (.inl (.inl member)))
        (computes ordered consequent fun slot member => inside slot (.inl (.inr member)))
        (computes ordered alternative fun slot member => inside slot (.inr member))

theorem computesParts (ordered : Slot.Ordered program.slots) : (parts : List Expr) →
    (∀ slot ∈ Expr.testedAll parts, slot < program.slots.size) →
      ComputesParts program subject parts
  | [], _ => computesParts_nil
  | part :: rest, inside => by
      simp only [Expr.testedAll, List.mem_append] at inside
      exact computesParts_cons (computes ordered part fun slot member => inside slot (.inl member))
        (computesParts ordered rest fun slot member => inside slot (.inr member))

end

theorem whole_at_ofExpr (source : String) (expr : Expr) (slots : Array Slot) :
    expr.whole.At (ofExpr source expr slots) ⟨0, 0, 0⟩ := by
  rw [ofExpr_eq]
  exact ⟨Occupies.self expr.whole.ops, Occupies.self expr.whole.keys,
    Occupies.self expr.whole.keySets⟩

/-- The program of an expression computes it from the first instruction to the end. -/
theorem leads_ofExpr (source : String) {expr : Expr} {slots : Array Slot}
    (ordered : Slot.Ordered slots) (inside : ∀ slot ∈ expr.tested, slot < slots.size)
    (before : Bool) :
    (ofExpr source expr slots).Leads subject 0 before (ofExpr source expr slots).ops.size
      (expr.eval ((ofExpr source expr slots).truth subject)) := by
  have everywhere : Computes (ofExpr source expr slots) subject expr :=
    computes ordered expr inside
  have computed := everywhere.upright (whole_at_ofExpr source expr slots) before
  have size : (ofExpr source expr slots).ops.size = expr.whole.ops.length := by
    rw [ofExpr_eq, List.size_toArray]
  rw [Nat.zero_add] at computed
  rw [size]
  exact computed

theorem Leads.run_fresh {before after : Bool}
    (leads : program.Leads subject 0 before program.ops.size after) :
    ∃ frame, program.run subject program.ops.size ⟨0, before, Frame.fresh program.slots.size⟩ =
      .ok ⟨program.ops.size, after, frame⟩ := by
  rcases leads _ (Frame.faithful_fresh program.slots subject) with ⟨frame, -, runs⟩
  exact ⟨frame, run_of_runs runs (Nat.le_refl _) (Nat.sub_le _ _)⟩

theorem evaluate_ofExpr (source : String) {expr : Expr} {slots : Array Slot}
    (ordered : Slot.Ordered slots) (inside : ∀ slot ∈ expr.tested, slot < slots.size)
    (subject : Option Json) :
    (ofExpr source expr slots).evaluate subject =
      expr.eval ((ofExpr source expr slots).truth subject) := by
  rcases (leads_ofExpr source ordered inside false).run_fresh with ⟨frame, finished⟩
  rw [evaluate, outcome, show Machine.initial (ofExpr source expr slots) =
    ⟨0, false, Frame.fresh (ofExpr source expr slots).slots.size⟩ from rfl, finished]

/-- Lowering an expression and running the result gives the truth value of the expression,
whatever the accumulator held before the first instruction. -/
theorem run_ofExpr_eq_eval (source : String) (expr : Expr) (slots : Array Slot)
    (ordered : Slot.Ordered slots) (inside : ∀ slot ∈ expr.tested, slot < slots.size)
    (subject : Option Json) (before : Bool) :
    ∃ frame, (ofExpr source expr slots).run subject (ofExpr source expr slots).ops.size
        ⟨0, before, Frame.fresh slots.size⟩ =
      .ok ⟨(ofExpr source expr slots).ops.size,
        expr.eval fun slot test => test.holds (Slot.value slots subject slot), frame⟩ :=
  (leads_ofExpr source ordered inside before).run_fresh

/-- A conditional in a conjunction in a conditional, with a double negation, on a table of three
slots and with an accumulator that is true before the first instruction. -/
theorem run_ofExpr_nested_conditional :
    let slots : Array Slot := #[.root, .member 0 "a", .member 1 "b"]
    let expr : Expr :=
      .cond (.not (.not (.test 1 .isNull))) (.test 0 (.has "c"))
        (.and (.test 0 (.isKind .object))
          [.cond (.test 2 .isAbsent) (.constant false) (.not (.test 2 .isNull)),
            .test 1 (.onlyKeys ["b"])])
    let subject : Option Json := some (.object [("a", .object [("b", .bool true)])])
    Slot.Ordered slots ∧ (∀ slot ∈ expr.tested, slot < slots.size) ∧
      ∃ frame, (ofExpr "" expr slots).run subject (ofExpr "" expr slots).ops.size
          ⟨0, true, Frame.fresh slots.size⟩ =
        .ok ⟨(ofExpr "" expr slots).ops.size,
          expr.eval fun slot test => test.holds (Slot.value slots subject slot), frame⟩ := by
  intro slots expr subject
  have ordered : Slot.Ordered slots := by
    intro slot parent key found
    match slot with
    | 0 => simp [slots] at found
    | 1 | 2 =>
        simp only [slots] at found
        cases found
        decide
    | slot + 3 => simp [slots] at found
  have inside : ∀ slot ∈ expr.tested, slot < slots.size := by decide
  exact ⟨ordered, inside, run_ofExpr_eq_eval "" expr slots ordered inside subject true⟩

end Program

end JsonShape
