import JsonShape.Proofs.Program.Compilation

/-!
# Compiled programs run without a fault

`Piece.Sound` is what lowering promises about a piece of code at its place: its tests look at slots
of the table, its names and sets of names are numbered in the order in which its instructions ask
for them, and its branches lead forwards, to a given position at most. Pieces in a row are sound if
each of them is, so the proof for an expression puts the pieces of its parts together.

A program whose whole code is sound is safe, and a safe program takes a step from wherever its run
comes to. Its first instruction sets the accumulator, since the code of an expression begins with a
test or a constant. So a run does not depend on what the accumulator is at first, and at its end the
accumulator has been set.
-/

namespace JsonShape

open Check

namespace Instruction

/-- The position of the name that an instruction asks for. -/
def key? : Instruction → Option Nat
  | .has _ key => some key
  | _ => none

/-- The position of the set of names that an instruction asks for. -/
def keySet? : Instruction → Option Nat
  | .onlyKeys _ keySet => some keySet
  | _ => none

/-- The tests and constants set the accumulator whatever it was before. -/
def sets : Instruction → Bool
  | .constant _ | .isNull _ | .isAbsent _ | .isKind _ _ | .has _ _ | .onlyKeys _ _ => true
  | .not | .jump _ _ => false

/-- What an instruction does depends on the accumulator. -/
def reads : Instruction → Bool
  | .not | .jump .ifFalse _ | .jump .ifTrue _ => true
  | _ => false

theorem reads_eq_false_of_sets {op : Instruction} (setting : op.sets = true) :
    op.reads = false := by
  cases op with
  | not | jump => cases setting
  | _ => rfl

end Instruction

/-! ### Sound pieces -/

/-- What a piece of code at some positions may ask for, and where it may lead. -/
structure Piece.Sound (slots stop : Nat) (start : Offsets) (piece : Piece) : Prop where
  slot_lt : ∀ op ∈ piece.ops, ∀ slot ∈ op.slot?, slot < slots
  keys_eq : piece.ops.filterMap Instruction.key? = List.range' start.keys piece.keys.length
  keySets_eq :
    piece.ops.filterMap Instruction.keySet? = List.range' start.keySets piece.keySets.length
  target_mem : ∀ (index : Nat) (op : Instruction), piece.ops[index]? = some op →
    ∀ target ∈ op.target?, start.ops + index < target ∧ target ≤ stop

namespace Piece.Sound

variable {slots stop : Nat} {start between : Offsets} {first second piece : Piece}

theorem append (soundFirst : first.Sound slots stop start)
    (soundSecond : second.Sound slots stop between) (placed : start.after first 0 = between) :
    (first ++ second).Sound slots stop start := by
  subst between
  refine ⟨?_, ?_, ?_, ?_⟩
  · intro op isOp
    rcases List.mem_append.mp isOp with before | behind
    · exact soundFirst.slot_lt op before
    · exact soundSecond.slot_lt op behind
  · have split := soundSecond.keys_eq
    simp only [Offsets.after] at split
    rw [ops_append, List.filterMap_append, soundFirst.keys_eq, split, keys_append,
      List.length_append, List.range'_append_1]
  · have split := soundSecond.keySets_eq
    simp only [Offsets.after] at split
    rw [ops_append, List.filterMap_append, soundFirst.keySets_eq, split, keySets_append,
      List.length_append, List.range'_append_1]
  · intro index op found target isTarget
    rw [ops_append, List.getElem?_append] at found
    split at found
    · exact soundFirst.target_mem index op found target isTarget
    · have bounds := soundSecond.target_mem _ op found target isTarget
      simp only [Offsets.after] at bounds
      omega

theorem extend {further : Nat} (sound : piece.Sound slots stop start) (behind : stop ≤ further) :
    piece.Sound slots further start := by
  refine ⟨sound.slot_lt, sound.keys_eq, sound.keySets_eq, ?_⟩
  intro index op found target isTarget
  have bounds := sound.target_mem index op found target isTarget
  omega

theorem empty : Piece.empty.Sound slots stop start := by
  refine ⟨?_, rfl, rfl, ?_⟩
  · intro op isOp
    cases isOp
  · intro index op found
    cases found

/-- An instruction that looks at no table. -/
theorem ofOp {op : Instruction} (noSlot : op.slot? = none) (noKey : op.key? = none)
    (noKeySet : op.keySet? = none)
    (forward : ∀ target ∈ op.target?, start.ops < target ∧ target ≤ stop) :
    (Piece.ofOp op).Sound slots stop start := by
  refine ⟨?_, ?_, ?_, ?_⟩
  · intro other isOp slot isSlot
    rw [List.mem_singleton.mp isOp, noSlot] at isSlot
    cases isSlot
  · simp [noKey]
  · simp [noKeySet]
  · intro index other found target isTarget
    rcases List.getElem?_eq_some_iff.mp found with ⟨inside, rfl⟩
    simp only [ops_ofOp, List.length_singleton] at inside
    have atStart : index = 0 := by omega
    subst atStart
    exact forward target isTarget

theorem ofJump {branch : Branch} {target : Nat} (forward : start.ops < target)
    (within : target ≤ stop) : (Piece.ofOp (.jump branch target)).Sound slots stop start := by
  apply ofOp rfl rfl rfl
  rintro other ⟨⟩
  exact ⟨forward, within⟩

theorem ofTest {slot : Nat} (inside : slot < slots) (test : Test) :
    (Piece.ofTest start slot test).Sound slots stop start := by
  cases test <;>
    refine ⟨by simpa [Piece.ofTest, Piece.ofOp, Instruction.slot?] using inside, rfl, rfl, ?_⟩ <;>
    · intro index op found target isTarget
      rcases index with _ | index <;> cases found
      cases isTarget

theorem invertIf (sound : piece.Sound slots (start.ops + piece.ops.length) start)
    (inverted : Bool) :
    (piece.invertIf inverted).Sound slots (start.ops + (piece.invertIf inverted).ops.length)
      start := by
  cases inverted with
  | false => exact sound
  | true =>
      have longer : start.ops + piece.ops.length ≤
          start.ops + (piece.invertIf true).ops.length := by
        simp
      exact (sound.extend longer).append (ofOp rfl rfl rfl (by simp [Instruction.target?])) rfl

end Piece.Sound

namespace Check.Expr

/-- Wherever the piece of the expression stands, it is sound and leads to its end at most. -/
def Sound (slots : Nat) (expr : Expr) : Prop :=
  ∀ (start : Offsets) (inverted : Bool),
    (expr.piece start inverted).Sound slots
      (start.ops + (expr.piece start inverted).ops.length) start

variable {slots : Nat}

/-- An expression that is inverted only behind its piece is sound if the piece is. -/
theorem sound_of_upright {expr : Expr} (piece : Offsets → Piece)
    (inverts : ∀ start inverted, expr.piece start inverted = (piece start).invertIf inverted)
    (upright : ∀ start : Offsets,
      (piece start).Sound slots (start.ops + (piece start).ops.length) start) :
    Sound slots expr := by
  intro start inverted
  rw [inverts]
  exact (upright start).invertIf inverted

theorem sound_constant (value : Bool) : Sound slots (.constant value) := by
  refine sound_of_upright (fun _ => Piece.ofOp (.constant value)) (fun _ _ => rfl) ?_
  intro start
  exact .ofOp rfl rfl rfl (by simp [Instruction.target?])

theorem sound_test {slot : Nat} (inside : slot < slots) (test : Test) :
    Sound slots (.test slot test) := by
  refine sound_of_upright (Piece.ofTest · slot test) (fun _ _ => rfl) ?_
  intro start
  exact .ofTest inside test

theorem sound_not {operand : Expr} (sound : Sound slots operand) : Sound slots (.not operand) :=
  fun start inverted => sound start (!inverted)

/-- The parts of a conjunction behind its first part are sound, each behind a branch to the end. -/
def SoundParts (slots : Nat) (parts : List Expr) : Prop :=
  ∀ (start : Offsets) (target : Nat),
    target = start.ops + Piece.guardedLength (pieces start.next parts) →
      (Piece.guarded target (pieces start.next parts)).Sound slots target start

theorem soundParts_cons {part : Expr} {rest : List Expr} (first : Sound slots part)
    (others : SoundParts slots rest) : SoundParts slots (part :: rest) := by
  intro start target atEnd
  let head := part.piece start.next false
  let tail := pieces (start.next.after head 1) rest
  change target = start.ops + (head.ops.length + 1 + Piece.guardedLength tail) at atEnd
  have branch : (Piece.ofOp (.jump .ifFalse target)).Sound slots target start :=
    .ofJump (by omega) (Nat.le_refl target)
  have headSound : head.Sound slots target start.next := by
    apply (first start.next false).extend
    change start.ops + 1 + head.ops.length ≤ target
    omega
  have tailSound := others (start.next.after head 0) target (by
    change target = start.ops + 1 + head.ops.length + 0 + Piece.guardedLength tail
    omega)
  have placed : start.after (Piece.ofOp (.jump .ifFalse target) ++ head) 0 =
      start.next.after head 0 := by
    rw [Offsets.after_append]
    rfl
  exact (branch.append headSound rfl).append tailSound placed

theorem sound_and {first : Expr} {rest : List Expr} (head : Sound slots first)
    (parts : SoundParts slots rest) : Sound slots (.and first rest) := by
  refine sound_of_upright _ (fun _ _ => rfl) ?_
  intro start
  rw [Piece.ops_append, List.length_append, Piece.length_ops_guarded, ← Nat.add_assoc]
  have partsSound := parts (start.after (first.piece start false) 0) _ rfl
  exact ((head start false).extend (Nat.le_add_right _ _)).append partsSound rfl

theorem sound_shortCircuit {alternative : Expr} (otherwise : Sound slots alternative)
    {start : Offsets} {first : Piece} (branch : Branch)
    (test : first.Sound slots (start.ops + first.ops.length) start) :
    let second := alternative.piece (start.after first 1) false
    let piece := first ++
      Piece.ofOp (.jump branch (start.ops + first.ops.length + 1 + second.ops.length)) ++ second
    piece.Sound slots (start.ops + piece.ops.length) start := by
  intro second piece
  have stop : start.ops + piece.ops.length =
      start.ops + first.ops.length + 1 + second.ops.length := by
    simp only [piece, Piece.ops_append, List.length_append, Piece.ops_ofOp, List.length_singleton]
    omega
  rw [stop]
  have jump : (Piece.ofOp
      (.jump branch (start.ops + first.ops.length + 1 + second.ops.length))).Sound slots
        (start.ops + first.ops.length + 1 + second.ops.length) (start.after first 0) := by
    apply Piece.Sound.ofJump
    · change start.ops + first.ops.length + 0 < _
      omega
    · exact Nat.le_refl _
  have tested := (test.extend (by omega)).append jump rfl
  exact tested.append (otherwise (start.after first 1) false) (Offsets.after_append_ofOp _ _ _)

theorem sound_conditional {condition consequent alternative : Expr}
    (test : Sound slots condition) (whenTrue : Sound slots consequent)
    (whenFalse : Sound slots alternative) (start : Offsets) :
    let first := condition.piece start false
    let middle := start.after first 1
    let second := consequent.piece middle false
    let last := middle.after second 1
    let third := alternative.piece last false
    let piece := first ++ Piece.ofOp (.jump .ifFalse last.ops) ++ second ++
      Piece.ofOp (.jump .always (last.ops + third.ops.length)) ++ third
    piece.Sound slots (start.ops + piece.ops.length) start := by
  intro first middle second last third piece
  have lastOps : last.ops = start.ops + first.ops.length + 1 + second.ops.length + 1 := rfl
  have stop : start.ops + piece.ops.length = last.ops + third.ops.length := by
    simp only [piece, Piece.ops_append, List.length_append, Piece.ops_ofOp, List.length_singleton]
    omega
  rw [stop]
  have around : (Piece.ofOp (.jump .ifFalse last.ops)).Sound slots
      (last.ops + third.ops.length) (start.after first 0) := by
    apply Piece.Sound.ofJump
    · change start.ops + first.ops.length + 0 < _
      omega
    · exact Nat.le_add_right _ _
  have exit : (Piece.ofOp (.jump .always (last.ops + third.ops.length))).Sound slots
      (last.ops + third.ops.length) (middle.after second 0) := by
    apply Piece.Sound.ofJump
    · change start.ops + first.ops.length + 1 + second.ops.length + 0 < _
      omega
    · exact Nat.le_refl _
  have firstSound := (test start false).extend
    (show start.ops + first.ops.length ≤ last.ops + third.ops.length by omega)
  have secondSound := (whenTrue middle false).extend
    (show start.ops + first.ops.length + 1 + second.ops.length ≤
      last.ops + third.ops.length by omega)
  have chosen := (firstSound.append around rfl).append secondSound
    (Offsets.after_append_ofOp start first _)
  have left := chosen.append exit (by rw [Offsets.after_append, Offsets.after_append_ofOp])
  refine left.append (whenFalse last false) ?_
  rw [Offsets.after_append_ofOp, Offsets.after_append, Offsets.after_append_ofOp]

theorem sound_cond {condition consequent alternative : Expr} (test : Sound slots condition)
    (whenTrue : Sound slots consequent) (whenFalse : Sound slots alternative) :
    Sound slots (.cond condition consequent alternative) := by
  cases consequent with
  | constant value =>
      cases value with
      | false =>
          refine sound_of_upright _ (fun _ _ => rfl) ?_
          exact fun start => sound_shortCircuit whenFalse .ifFalse (test start true)
      | true =>
          refine sound_of_upright _ (fun _ _ => rfl) ?_
          exact fun start => sound_shortCircuit whenFalse .ifTrue (test start false)
  | _ =>
      refine sound_of_upright _ (fun _ _ => rfl) ?_
      exact fun start => sound_conditional test whenTrue whenFalse start

mutual

/-- An expression is sound if the slots that it tests lie inside the table. -/
theorem sound_of_tested : (expr : Expr) → (∀ slot ∈ expr.tested, slot < slots) → Sound slots expr
  | .constant value, _ => sound_constant value
  | .test slot asked, inside => sound_test (inside slot (by simp [tested])) asked
  | .not operand, inside => sound_not (sound_of_tested operand inside)
  | .and first rest, inside => by
      simp only [tested, List.mem_append] at inside
      apply sound_and
      · exact sound_of_tested first fun slot member => inside slot (.inl member)
      · exact soundParts_of_tested rest fun slot member => inside slot (.inr member)
  | .cond condition consequent alternative, inside => by
      simp only [tested, List.mem_append] at inside
      apply sound_cond
      · exact sound_of_tested condition fun slot member => inside slot (.inl (.inl member))
      · exact sound_of_tested consequent fun slot member => inside slot (.inl (.inr member))
      · exact sound_of_tested alternative fun slot member => inside slot (.inr member)

theorem soundParts_of_tested : (parts : List Expr) →
    (∀ slot ∈ testedAll parts, slot < slots) → SoundParts slots parts
  | [], _ => fun _ _ _ => .empty
  | part :: rest, inside => by
      simp only [testedAll, List.mem_append] at inside
      apply soundParts_cons
      · exact sound_of_tested part fun slot member => inside slot (.inl member)
      · exact soundParts_of_tested rest fun slot member => inside slot (.inr member)

end

end Check.Expr

/-! ### The first instruction -/

/-- The first instruction of the piece is a test or a constant. -/
def Piece.Begins (piece : Piece) : Prop :=
  ∃ op later, piece.ops = op :: later ∧ op.sets = true

namespace Piece.Begins

variable {piece : Piece}

theorem append (begins : piece.Begins) (second : Piece) : (piece ++ second).Begins := by
  rcases begins with ⟨op, later, first, setting⟩
  exact ⟨op, later ++ second.ops, by rw [ops_append, first, List.cons_append], setting⟩

theorem invertIf (begins : piece.Begins) (inverted : Bool) : (piece.invertIf inverted).Begins := by
  cases inverted with
  | false => exact begins
  | true => exact begins.append (ofOp .not)

end Piece.Begins

/-- The code of an expression begins with a test or a constant. -/
theorem Check.Expr.begins_piece : (expr : Expr) → ∀ (start : Offsets) (inverted : Bool),
    (expr.piece start inverted).Begins
  | .constant value, _, inverted =>
      Piece.Begins.invertIf ⟨.constant value, [], rfl, rfl⟩ inverted
  | .test slot asked, start, inverted => by
      apply Piece.Begins.invertIf
      cases asked <;> exact ⟨_, _, rfl, rfl⟩
  | .not operand, start, inverted => begins_piece operand start (!inverted)
  | .and first rest, start, inverted => by
      apply Piece.Begins.invertIf
      exact (begins_piece first start false).append _
  | .cond condition consequent alternative, start, inverted => by
      have test := begins_piece condition start
      cases consequent with
      | constant value =>
          cases value with
          | false => exact (((test true).append _).append _).invertIf inverted
          | true => exact (((test false).append _).append _).invertIf inverted
      | _ => exact (((((test false).append _).append _).append _).append _).invertIf inverted

namespace Program

variable {program : Program} {subject : Option Json} {source : String}

/-! ### Safe programs -/

/-- The names and sets of names of a program are numbered in the order in which its instructions
ask for them, and its first instruction sets the accumulator. -/
structure Numbered (program : Program) : Prop where
  keys : program.ops.toList.filterMap Instruction.key? = List.range program.keys.size
  keySets : program.ops.toList.filterMap Instruction.keySet? = List.range program.keySets.size
  first_sets : ∃ op, program.ops[0]? = some op ∧ op.sets = true

theorem Numbered.sets_of_first (numbered : program.Numbered) {op : Instruction}
    (fetched : program.ops[0]? = some op) : op.sets = true := by
  rcases numbered.first_sets with ⟨first, isFirst, setting⟩
  rw [isFirst] at fetched
  cases fetched
  exact setting

/-- The program of an expression is safe if the slots that it tests lie inside the table. -/
theorem safe_ofExpr (source : String) {expr : Expr} {slots : Array Slot}
    (ordered : Slot.Ordered slots) (inside : ∀ slot ∈ expr.tested, slot < slots.size) :
    (ofExpr source expr slots).Safe ∧ (ofExpr source expr slots).Numbered := by
  have sound : expr.whole.Sound slots.size (0 + expr.whole.ops.length) ⟨0, 0, 0⟩ :=
    expr.sound_of_tested inside ⟨0, 0, 0⟩ false
  rw [Nat.zero_add] at sound
  have keys := sound.keys_eq
  have keySets := sound.keySets_eq
  rw [← List.range_eq_range'] at keys keySets
  rw [ofExpr_eq]
  constructor
  · refine ⟨?_, ?_, ?_, ordered, ?_, ?_⟩
    · intro op isOp
      exact sound.slot_lt op (List.mem_toArray.mp isOp)
    · intro slot key isOp
      have asked : key ∈ expr.whole.ops.filterMap Instruction.key? :=
        List.mem_filterMap.mpr ⟨_, List.mem_toArray.mp isOp, rfl⟩
      rw [keys] at asked
      exact List.mem_range.mp asked
    · intro slot keySet isOp
      have asked : keySet ∈ expr.whole.ops.filterMap Instruction.keySet? :=
        List.mem_filterMap.mpr ⟨_, List.mem_toArray.mp isOp, rfl⟩
      rw [keySets] at asked
      exact List.mem_range.mp asked
    · intro index op found target isTarget
      rw [List.getElem?_toArray] at found
      have forward := (sound.target_mem index op found target isTarget).1
      omega
    · intro op isOp target isTarget
      rcases List.getElem?_of_mem (List.mem_toArray.mp isOp) with ⟨index, found⟩
      exact (sound.target_mem index op found target isTarget).2
  · rcases expr.begins_piece ⟨0, 0, 0⟩ false with ⟨op, later, begins, setting⟩
    refine ⟨keys, keySets, op, ?_, setting⟩
    rw [List.getElem?_toArray]
    exact begins ▸ rfl

/-! ### Runs of safe programs -/

/-- Wherever its run comes to, a safe program takes a step, which leads forwards and to the end at
most. -/
theorem step_of_safe (safe : program.Safe) {machine : Machine} {op : Instruction}
    (faithful : machine.frame.Faithful program.slots subject)
    (fetched : program.ops[machine.position]? = some op) :
    ∃ next, program.step subject machine op = .ok next ∧
      next.frame.Faithful program.slots subject ∧ machine.position < next.position ∧
        next.position ≤ program.ops.size := by
  have isOp := Array.mem_of_getElem? fetched
  have inside := (Array.getElem?_eq_some_iff.mp fetched).1
  have test (slot : Nat) (looksAt : slot ∈ op.slot?) (asked : Test) :
      ∃ next, program.applyTest subject machine slot asked = .ok next ∧
        next.frame.Faithful program.slots subject ∧ machine.position < next.position ∧
          next.position ≤ program.ops.size := by
    rcases applyTest_of_faithful safe.slots_ordered machine faithful
      (safe.slot_lt op isOp slot looksAt) asked with ⟨frame, applied, kept⟩
    exact ⟨_, applied, kept, Nat.lt_succ_self _, inside⟩
  cases op with
  | constant value => exact ⟨_, rfl, faithful, Nat.lt_succ_self _, inside⟩
  | isNull slot => exact test slot rfl .isNull
  | isAbsent slot => exact test slot rfl .isAbsent
  | isKind kind slot => exact test slot rfl (.isKind kind)
  | has slot key =>
      have known := Array.getElem?_eq_getElem (safe.key_lt slot key isOp)
      simp only [step, known]
      exact test slot rfl (.has _)
  | onlyKeys slot keySet =>
      have known := Array.getElem?_eq_getElem (safe.keySet_lt slot keySet isOp)
      simp only [step, known]
      exact test slot rfl (.onlyKeys _)
  | not => exact ⟨_, rfl, faithful, Nat.lt_succ_self _, inside⟩
  | jump branch target =>
      have forward := safe.target_gt machine.position _ fetched target rfl
      have within := safe.target_le _ isOp target rfl
      refine ⟨_, rfl, faithful, ?_, ?_⟩
      · dsimp only
        split <;> omega
      · dsimp only
        split <;> omega

/-- A safe program runs to its end. -/
theorem exists_runs_to_end (safe : program.Safe) (machine : Machine)
    (faithful : machine.frame.Faithful program.slots subject)
    (inside : machine.position ≤ program.ops.size) :
    ∃ last, Runs program subject machine last ∧ last.position = program.ops.size := by
  by_cases atEnd : machine.position = program.ops.size
  · exact ⟨machine, .done machine, atEnd⟩
  · have fetched := Array.getElem?_eq_getElem (Nat.lt_of_le_of_ne inside atEnd)
    rcases step_of_safe safe faithful fetched with ⟨next, stepped, kept, forward, within⟩
    rcases exists_runs_to_end safe next kept within with ⟨last, runs, reached⟩
    exact ⟨last, .step fetched stepped forward runs, reached⟩
termination_by program.ops.size - machine.position

/-- The machines that a run comes to, each with the number of steps made by then and with whether
a test or a constant has set the accumulator among them. -/
inductive Visits (program : Program) (subject : Option Json) : Nat → Machine → Bool → Prop
  | start : Visits program subject 0 (.initial program) false
  | step {steps : Nat} {machine next : Machine} {isSet : Bool} {op : Instruction}
      (visited : Visits program subject steps machine isSet)
      (fetched : program.ops[machine.position]? = some op)
      (stepped : program.step subject machine op = .ok next) :
      Visits program subject (steps + 1) next (isSet || op.sets)

/-- What holds wherever the run of a safe program comes to. -/
structure Machine.Sane (program : Program) (subject : Option Json) (steps : Nat)
    (machine : Machine) (isSet : Bool) : Prop where
  faithful : machine.frame.Faithful program.slots subject
  steps_le : steps ≤ machine.position
  position_le : machine.position ≤ program.ops.size
  /-- Behind the first instruction the accumulator has been set. -/
  set_or_first : machine.position = 0 ∨ isSet = true

theorem Visits.sane (safe : program.Safe) (numbered : program.Numbered) {steps : Nat}
    {machine : Machine} {isSet : Bool} (visited : Visits program subject steps machine isSet) :
    machine.Sane program subject steps isSet := by
  induction visited with
  | start =>
      exact ⟨Frame.faithful_fresh program.slots subject, Nat.le_refl 0, Nat.zero_le _, .inl rfl⟩
  | @step steps machine _ isSet op visited fetched stepped ih =>
      rcases step_of_safe safe ih.faithful fetched with ⟨next, same, kept, forward, within⟩
      rw [stepped] at same
      cases same
      refine ⟨kept, Nat.lt_of_le_of_lt ih.steps_le forward, within, .inr ?_⟩
      rcases ih.set_or_first with atStart | already
      · rw [atStart] at fetched
        rw [numbered.sets_of_first fetched, Bool.or_true]
      · rw [already, Bool.true_or]

/-- An instruction that looks at the accumulator is not the first. -/
theorem Machine.Sane.isSet_of_reads (numbered : program.Numbered) {steps : Nat}
    {machine : Machine} {isSet : Bool} (sane : machine.Sane program subject steps isSet)
    {op : Instruction} (fetched : program.ops[machine.position]? = some op)
    (reading : op.reads = true) : isSet = true := by
  rcases sane.set_or_first with atStart | already
  · rw [atStart] at fetched
    rw [Instruction.reads_eq_false_of_sets (numbered.sets_of_first fetched)] at reading
    cases reading
  · exact already

/-- What is on the way from a visited machine is visited. -/
theorem Visits.exists_of_runs {steps : Nat} {machine last : Machine} {isSet : Bool}
    (visited : Visits program subject steps machine isSet)
    (runs : Runs program subject machine last) :
    ∃ steps isSet, Visits program subject steps last isSet := by
  induction runs generalizing steps isSet with
  | done machine => exact ⟨steps, isSet, visited⟩
  | step fetched stepped forward rest ih => exact ih (visited.step fetched stepped)

/-- At the end of a run the accumulator has been set. -/
theorem exists_visits_end (safe : program.Safe) (numbered : program.Numbered) {last : Machine}
    (nonempty : 0 < program.ops.size) (runs : Runs program subject (.initial program) last)
    (reached : last.position = program.ops.size) :
    ∃ steps, Visits program subject steps last true := by
  rcases Visits.start.exists_of_runs runs with ⟨steps, isSet, visited⟩
  rcases (visited.sane safe numbered).set_or_first with atStart | rfl
  · omega
  · exact ⟨steps, visited⟩

/-! ### The accumulator at first -/

theorem step_eq_of_sets {op : Instruction} (setting : op.sets = true) (machine : Machine)
    (accumulator : Bool) :
    program.step subject { machine with accumulator } op = program.step subject machine op := by
  cases op with
  | not | jump => cases setting
  | _ => rfl

/-- A run that begins by setting the accumulator does not depend on what it was before. -/
theorem run_eq_of_sets {steps : Nat} (positive : 0 < steps) {machine : Machine} {op : Instruction}
    (fetched : program.ops[machine.position]? = some op) (setting : op.sets = true)
    (accumulator : Bool) :
    program.run subject steps { machine with accumulator } =
      program.run subject steps machine := by
  cases steps with
  | zero => omega
  | succ steps => simp only [run, fetched, step_eq_of_sets setting]

/-! ### Compiled programs -/

theorem safe_ofFormula (source : String) (formula : Formula) :
    (ofFormula source formula).Safe ∧ (ofFormula source formula).Numbered :=
  safe_ofExpr source (interned_ofFormula source formula).ordered fun _ => lt_of_tested_toExpr

/-- A compiled program asks for nothing outside its tables, which are numbered as its instructions
ask for them, and branches forwards, to its end at most. So no run of it has a fault: it gets to
the end in at most as many steps as there are instructions, each step leads forwards, and no
instruction looks at the accumulator before a test or a constant has set it. What it is at first is
never seen: at the end, where it is the verdict, it has been set, and every run that begins with
another accumulator ends in the same way. -/
theorem safe_of_compile {program : Program} (compiled : compile source = .ok program) :
    (program.Safe ∧ ∀ slot : Nat, program.slots[slot]? = some .root ↔ slot = 0) ∧
      program.ops.toList.filterMap Instruction.key? = List.range program.keys.size ∧
      program.ops.toList.filterMap Instruction.keySet? = List.range program.keySets.size ∧
      0 < program.ops.size ∧ (∃ op, program.ops[0]? = some op ∧ op.sets = true) ∧
      ∀ subject : Option Json,
        (∃ last, program.outcome subject = .ok last ∧ last.position = program.ops.size ∧
          program.evaluate subject = last.accumulator ∧
          (∃ steps, Visits program subject steps last true) ∧
          ∀ accumulator : Bool, program.run subject program.ops.size
            { Machine.initial program with accumulator } = .ok last) ∧
        ∀ (steps : Nat) (machine : Machine) (isSet : Bool),
          Visits program subject steps machine isSet →
            steps ≤ program.ops.size ∧ (machine.position = 0 ∨ isSet = true) ∧
            ∀ op : Instruction, program.ops[machine.position]? = some op →
              (op.reads = true → isSet = true) ∧
                ∃ next, program.step subject machine op = .ok next ∧
                  machine.position < next.position := by
  rcases exists_isExpr_of_compile compiled with ⟨-, formula, -, -, rfl⟩
  have interned := interned_ofFormula source formula
  rcases safe_ofFormula source formula with ⟨safe, numbered⟩
  generalize ofFormula source formula = program at interned safe numbered
  have onlyRoot : ∀ slot : Nat, program.slots[slot]? = some .root ↔ slot = 0 := by
    intro slot
    constructor
    · exact fun found => interned.distinct slot 0 .root found interned.root_first
    · rintro rfl
      exact interned.root_first
  rcases numbered.first_sets with ⟨first, isFirst, setting⟩
  have nonempty : 0 < program.ops.size := (Array.getElem?_eq_some_iff.mp isFirst).1
  refine ⟨⟨safe, onlyRoot⟩, numbered.keys, numbered.keySets, nonempty, ⟨first, isFirst, setting⟩,
    fun subject => ⟨?_, ?_⟩⟩
  · rcases exists_runs_to_end safe (.initial program)
      (Frame.faithful_fresh program.slots subject) (Nat.zero_le _) with ⟨last, runs, reached⟩
    have outcome : program.outcome subject = .ok last :=
      run_of_runs runs (Nat.le_of_eq reached.symm) (Nat.sub_le _ _)
    refine ⟨last, outcome, reached, by rw [evaluate, outcome],
      exists_visits_end safe numbered nonempty runs reached, ?_⟩
    intro accumulator
    rw [run_eq_of_sets nonempty isFirst setting]
    exact outcome
  · intro steps machine isSet visited
    have sane := visited.sane safe numbered
    refine ⟨Nat.le_trans sane.steps_le sane.position_le, sane.set_or_first, ?_⟩
    intro op fetched
    rcases step_of_safe safe sane.faithful fetched with ⟨next, stepped, -, forward, -⟩
    exact ⟨sane.isSet_of_reads numbered fetched, next, stepped, forward⟩

/-- A conditional in a binding, with both kinds of branch, a name, a set of names and an inversion
on the last way through. -/
theorem safe_of_compile_conditional :
    let source := "let v = value[\"a\"] in (\"b\" in v ? onlyKeys(v, \"b\") : !(v === null))"
    let program : Program :=
      ⟨#[.has 1 0, .jump .ifFalse 4, .onlyKeys 1 0, .jump .always 6, .isNull 1, .not],
        #[.root, .member 0 "a"], #["b"], #[["b"]], source⟩
    compile source = .ok program ∧
      program.Safe ∧ program.ops.toList.filterMap Instruction.key? = List.range 1 ∧
      ∀ subject : Option Json,
        (∃ last, program.outcome subject = .ok last ∧ last.position = 6 ∧
          program.evaluate subject = last.accumulator ∧
          (∃ steps, Visits program subject steps last true) ∧
          ∀ accumulator : Bool, program.run subject 6
            { Machine.initial program with accumulator } = .ok last) ∧
        ∀ (steps : Nat) (machine : Machine) (isSet : Bool),
          Visits program subject steps machine isSet →
            steps ≤ 6 ∧ (machine.position = 0 ∨ isSet = true) ∧
            ∀ op : Instruction, program.ops[machine.position]? = some op →
              (op.reads = true → isSet = true) ∧
                ∃ next, program.step subject machine op = .ok next ∧
                  machine.position < next.position := by
  intro source program
  have compiled : compile source = .ok program := by decide +kernel
  rcases safe_of_compile compiled with ⟨⟨safe, -⟩, keys, -, -, -, runs⟩
  exact ⟨compiled, safe, keys, runs⟩

end Program

end JsonShape
