import Mathlib.Data.List.Perm.Subperm
import Mathlib.Logic.Relation
import JsonShape.Proofs.Program.Safety

/-!
# What a run remembers

`walk` finds the value of a slot by going down its definitions from the value under test, and
`walkOutcome` is a run that does so at every instruction and remembers nothing. It makes the same
steps as a run with a frame (`walkRun_cursor`), since looking at a slot gives what walking gives
(`load_spec`).

Looking at a slot changes the frame by single entries (`Enters`): each goes to a slot whose entry is
missing, behind the entry of its parent, and is the value that walking finds. So an entry is made
once and stays, and the log of a frame lists every slot once at most (`Frame.Recorded`). A slot that
an instruction has looked at has its entry afterwards (`Leaves`), and looking at an entry changes
nothing, so no slot is found twice.
-/

namespace JsonShape

open Check

namespace Program

/-! ### Runs without a frame -/

/-- The value of a slot, found by going down its definitions from the value under test. A member of
a value that is absent or no object is absent. -/
def walk (program : Program) (subject : Option Json) (slot : Nat) :
    Except Fault (Option Json) :=
  match program.slots[slot]? with
  | none => .error (.noSlot slot)
  | some .root => .ok subject
  | some (.member parent key) =>
      if parent < slot then
        match walk program subject parent with
        | .error fault => .error fault
        | .ok object => .ok (object.bind (Json.member? · key))
      else .error (.noSlot parent)
termination_by slot

/-- A machine without a frame. -/
structure Cursor where
  position : Nat
  accumulator : Bool

def Machine.cursor (machine : Machine) : Cursor :=
  ⟨machine.position, machine.accumulator⟩

@[simp]
theorem Machine.position_cursor (machine : Machine) :
    machine.cursor.position = machine.position := rfl

@[simp]
theorem Machine.cursor_initial (program : Program) :
    (Machine.initial program).cursor = ⟨0, false⟩ := rfl

/-- Sets the accumulator to the outcome of a test of a slot. -/
def walkTest (program : Program) (subject : Option Json) (cursor : Cursor) (slot : Nat)
    (test : Test) : Except Fault Cursor :=
  match program.walk subject slot with
  | .error fault => .error fault
  | .ok value => .ok ⟨cursor.position + 1, test.holds value⟩

def walkStep (program : Program) (subject : Option Json) (cursor : Cursor) :
    Instruction → Except Fault Cursor
  | .constant value => .ok ⟨cursor.position + 1, value⟩
  | .isNull slot => program.walkTest subject cursor slot .isNull
  | .isAbsent slot => program.walkTest subject cursor slot .isAbsent
  | .isKind kind slot => program.walkTest subject cursor slot (.isKind kind)
  | .has slot key =>
      match program.keys[key]? with
      | none => .error (.noKey key)
      | some name => program.walkTest subject cursor slot (.has name)
  | .onlyKeys slot keySet =>
      match program.keySets[keySet]? with
      | none => .error (.noKeySet keySet)
      | some names => program.walkTest subject cursor slot (.onlyKeys names)
  | .not => .ok ⟨cursor.position + 1, !cursor.accumulator⟩
  | .jump branch target =>
      .ok ⟨if branch.taken cursor.accumulator then target else cursor.position + 1,
        cursor.accumulator⟩

def walkRun (program : Program) (subject : Option Json) : Nat → Cursor → Except Fault Cursor
  | 0, cursor => if cursor.position < program.ops.size then .error .endless else .ok cursor
  | steps + 1, cursor =>
      match program.ops[cursor.position]? with
      | none => .ok cursor
      | some op =>
          match program.walkStep subject cursor op with
          | .error fault => .error fault
          | .ok next => program.walkRun subject steps next

def walkOutcome (program : Program) (subject : Option Json) : Except Fault Cursor :=
  program.walkRun subject program.ops.size ⟨0, false⟩

/-- Whether a program accepts a value, or the absence of one, when nothing is remembered. -/
def evaluateWalking (program : Program) (subject : Option Json) : Bool :=
  match program.walkOutcome subject with
  | .ok cursor => cursor.accumulator
  | .error _ => false

variable {program : Program} {subject : Option Json} {frame after : Frame} {slot : Nat}

/-- Walking reaches what the path of the slot leads to. -/
theorem walk_eq_value (ordered : Slot.Ordered program.slots) (inside : slot < program.slots.size) :
    program.walk subject slot = .ok (Slot.value program.slots subject slot) := by
  induction slot using Nat.strongRecOn with
  | ind slot ih =>
      have found := Array.getElem?_eq_getElem inside
      generalize program.slots[slot] = definition at found
      cases definition with
      | root =>
          rw [walk, found, Slot.value_root found]
      | member parent key =>
          have before := ordered slot parent key found
          rw [walk, found, Slot.value_member ordered found]
          simp only [if_pos before, ih parent before (by omega)]

/-! ### Entries -/

/-- One entry is made in a frame. -/
inductive Enters (program : Program) (subject : Option Json) : Frame → Frame → Prop
  | enter {frame : Frame} {slot : Nat} {value : Option Json}
      (missing : frame.values[slot]? = some none)
      (found : program.walk subject slot = .ok value)
      (behindParent : ∀ (parent : Nat) (key : String),
        program.slots[slot]? = some (.member parent key) →
          ∃ object, frame.values[parent]? = some (some object)) :
      Enters program subject frame (frame.enter slot value)

/-- What the entries and the log of a frame say. -/
structure Frame.Recorded (program : Program) (subject : Option Json) (frame : Frame) : Prop where
  size_eq : frame.values.size = program.slots.size
  /-- An entry is the value that walking finds. -/
  walk_eq : ∀ (slot : Nat) (value : Option Json), frame.values[slot]? = some (some value) →
    program.walk subject slot = .ok value
  /-- The log lists the slots that have an entry. -/
  mem_iff : ∀ slot : Nat, slot ∈ frame.loaded ↔ ∃ value, frame.values[slot]? = some (some value)
  /-- Every slot has been entered once at most. -/
  nodup : frame.loaded.Nodup
  /-- The entry of the parent was made before. -/
  parent_mem : ∀ (later : List Nat) (slot : Nat) (earlier : List Nat) (parent : Nat) (key : String),
    frame.loaded = later ++ slot :: earlier →
      program.slots[slot]? = some (.member parent key) → parent ∈ earlier

theorem getElem?_enter (missing : frame.values[slot]? = some none) (value : Option Json)
    (other : Nat) :
    (frame.enter slot value).values[other]? =
      if other = slot then some (some value) else frame.values[other]? := by
  have inside := (Array.getElem?_eq_some_iff.mp missing).1
  rw [Frame.enter, Array.getElem?_setIfInBounds, if_pos inside]
  by_cases same : other = slot
  · rw [if_pos same, if_pos same.symm]
  · rw [if_neg same, if_neg (Ne.symm same)]

theorem Enters.keeps (enters : Enters program subject frame after) {other : Nat}
    {entry : Option Json} (entered : frame.values[other]? = some (some entry)) :
    after.values[other]? = some (some entry) := by
  cases enters with
  | @enter slot value missing =>
      rw [getElem?_enter missing, if_neg, entered]
      rintro rfl
      rw [missing] at entered
      cases entered

theorem keeps_of_enters (entries : Relation.ReflTransGen (Enters program subject) frame after)
    {other : Nat} {entry : Option Json} (entered : frame.values[other]? = some (some entry)) :
    after.values[other]? = some (some entry) := by
  induction entries with
  | refl => exact entered
  | tail _ last ih => exact last.keeps ih

namespace Frame.Recorded

theorem fresh (program : Program) (subject : Option Json) :
    (Frame.fresh program.slots.size).Recorded program subject := by
  have empty (slot : Nat) (value : Option Json) :
      (Frame.fresh program.slots.size).values[slot]? ≠ some (some value) := by
    simp [Frame.fresh, Array.getElem?_replicate]
  refine ⟨by simp [Frame.fresh], ?_, ?_, List.nodup_nil, ?_⟩
  · intro slot value entered
    exact absurd entered (empty slot value)
  · intro slot
    simp [Frame.fresh, Array.getElem?_replicate]
  · intro later slot earlier parent key split
    simp [Frame.fresh] at split

theorem of_enters (recorded : frame.Recorded program subject)
    (enters : Enters program subject frame after) : after.Recorded program subject := by
  cases enters with
  | @enter slot value missing found behindParent =>
      refine ⟨?_, ?_, ?_, ?_, ?_⟩
      · simp [Frame.enter, recorded.size_eq]
      · intro other entry entered
        rw [getElem?_enter missing] at entered
        split at entered
        · rename_i same
          simp only [Option.some.injEq] at entered
          rw [same, found, entered]
        · exact recorded.walk_eq other entry entered
      · intro other
        rw [getElem?_enter missing, Frame.enter, List.mem_cons, recorded.mem_iff]
        by_cases same : other = slot <;> simp [same]
      · refine List.nodup_cons.mpr ⟨?_, recorded.nodup⟩
        rw [recorded.mem_iff, missing]
        simp
      · intro later other earlier parent key split isMember
        cases later with
        | nil =>
            rw [Frame.enter, List.nil_append, List.cons.injEq] at split
            rw [← split.2, recorded.mem_iff]
            exact behindParent parent key (split.1 ▸ isMember)
        | cons last later =>
            rw [Frame.enter, List.cons_append, List.cons.injEq] at split
            exact recorded.parent_mem later other earlier parent key split.2 isMember

theorem of_reflTransGen (recorded : frame.Recorded program subject)
    (entries : Relation.ReflTransGen (Enters program subject) frame after) :
    after.Recorded program subject := by
  induction entries with
  | refl => exact recorded
  | tail _ last ih => exact ih.of_enters last

/-- There are at most as many entries as slots. -/
theorem length_loaded_le (recorded : frame.Recorded program subject) :
    frame.loaded.length ≤ program.slots.size := by
  have inside : frame.loaded ⊆ List.range program.slots.size := by
    intro slot isLoaded
    rcases (recorded.mem_iff slot).mp isLoaded with ⟨value, entered⟩
    rw [List.mem_range, ← recorded.size_eq]
    exact (Array.getElem?_eq_some_iff.mp entered).1
  simpa using (recorded.nodup.subperm inside).length_le

end Frame.Recorded

/-! ### Looking at a slot -/

/-- What looking at a slot leaves: the slot has its value, and everything new in the frame stands at
slots that walking to this one passes. -/
structure Loads (program : Program) (subject : Option Json) (frame : Frame) (slot : Nat)
    (value : Option Json) (after : Frame) : Prop where
  entries : Relation.ReflTransGen (Enters program subject) frame after
  entered : after.values[slot]? = some (some value)
  untouched : ∀ other : Nat, slot < other → after.values[other]? = frame.values[other]?

/-- An entry of a slot whose parent has just been looked at. -/
theorem Loads.enter {parent : Nat} {key : String} {object : Option Json}
    (loads : Loads program subject frame parent object after) (before : parent < slot)
    (missing : frame.values[slot]? = some none)
    (isMember : program.slots[slot]? = some (.member parent key))
    (walked : program.walk subject slot = .ok (object.bind (Json.member? · key))) :
    Loads program subject frame slot (object.bind (Json.member? · key))
      (after.enter slot (object.bind (Json.member? · key))) := by
  have stillMissing : after.values[slot]? = some none := by
    rw [loads.untouched slot before, missing]
  refine ⟨loads.entries.tail (.enter stillMissing walked ?_), ?_, ?_⟩
  · intro other otherKey found
    rw [isMember] at found
    cases found
    exact ⟨object, loads.entered⟩
  · rw [getElem?_enter stillMissing, if_pos rfl]
  · intro other behind
    rw [getElem?_enter stillMissing, if_neg (by omega), loads.untouched other (by omega)]

/-- Looking at a slot gives what walking to it gives, or the same fault. -/
def LoadWalks (program : Program) (subject : Option Json) (frame : Frame) (slot : Nat) : Prop :=
  (∃ fault, program.load subject frame slot = .error fault ∧
      program.walk subject slot = .error fault) ∨
    ∃ value after, program.load subject frame slot = .ok (value, after) ∧
      program.walk subject slot = .ok value ∧ Loads program subject frame slot value after

theorem loadWalks_root (missing : frame.values[slot]? = some none)
    (isRoot : program.slots[slot]? = some .root) : LoadWalks program subject frame slot := by
  have walked : program.walk subject slot = .ok subject := by rw [walk, isRoot]
  have entered : Enters program subject frame (frame.enter slot subject) := by
    apply Enters.enter missing walked
    intro parent key isMember
    rw [isRoot] at isMember
    cases isMember
  refine .inr ⟨subject, frame.enter slot subject, ?_, walked, .single entered, ?_, ?_⟩
  · rw [load, missing, isRoot]
  · rw [getElem?_enter missing, if_pos rfl]
  · intro other behind
    rw [getElem?_enter missing, if_neg (by omega)]

theorem loadWalks_member {parent : Nat} {key : String} (before : parent < slot)
    (missing : frame.values[slot]? = some none)
    (isMember : program.slots[slot]? = some (.member parent key))
    (onParent : LoadWalks program subject frame parent) : LoadWalks program subject frame slot := by
  rcases onParent with ⟨fault, loaded, walked⟩ | ⟨object, after, loaded, walked, loads⟩
  · left
    refine ⟨fault, ?_, ?_⟩
    · rw [load, missing, isMember]
      simp only [if_pos before, loaded]
    · rw [walk, isMember]
      simp only [if_pos before, walked]
  · right
    have slotWalked : program.walk subject slot = .ok (object.bind (Json.member? · key)) := by
      rw [walk, isMember]
      simp only [if_pos before, walked]
    refine ⟨_, _, ?_, slotWalked, loads.enter before missing isMember slotWalked⟩
    rw [load, missing, isMember]
    simp only [if_pos before, loaded]

theorem loadWalks_disordered {parent : Nat} {key : String} (disordered : ¬parent < slot)
    (missing : frame.values[slot]? = some none)
    (isMember : program.slots[slot]? = some (.member parent key)) :
    LoadWalks program subject frame slot := by
  refine .inl ⟨.noSlot parent, ?_, ?_⟩
  · rw [load, missing, isMember]
    simp only [if_neg disordered]
  · rw [walk, isMember]
    simp only [if_neg disordered]

/-- Looking at a slot that has its entry leaves the frame as it is. -/
theorem load_of_entered {value : Option Json} (entered : frame.values[slot]? = some (some value)) :
    program.load subject frame slot = .ok (value, frame) := by
  rw [load, entered]

theorem load_spec (recorded : frame.Recorded program subject) (slot : Nat) :
    LoadWalks program subject frame slot := by
  induction slot using Nat.strongRecOn with
  | ind slot ih =>
      cases entry : frame.values[slot]? with
      | none =>
          have outside : program.slots[slot]? = none := by
            rw [Array.getElem?_eq_none_iff, recorded.size_eq] at entry
            exact Array.getElem?_eq_none_iff.mpr entry
          exact .inl ⟨.noSlot slot, by rw [load, entry], by rw [walk, outside]⟩
      | some known =>
          cases known with
          | some value =>
              exact .inr ⟨value, frame, load_of_entered entry, recorded.walk_eq slot value entry,
                .refl, entry, fun _ _ => rfl⟩
          | none =>
              have inside := (Array.getElem?_eq_some_iff.mp entry).1
              rw [recorded.size_eq] at inside
              have found := Array.getElem?_eq_getElem inside
              generalize program.slots[slot] = definition at found
              cases definition with
              | root => exact loadWalks_root entry found
              | member parent key =>
                  by_cases before : parent < slot
                  · exact loadWalks_member before entry found (ih parent before)
                  · exact loadWalks_disordered before entry found

/-! ### Steps and runs -/

/-- What an instruction leaves in a frame: it makes single entries, and what it looks at has its
entry. -/
structure Leaves (program : Program) (subject : Option Json) (frame : Frame) (looksAt : Option Nat)
    (after : Frame) : Prop where
  entries : Relation.ReflTransGen (Enters program subject) frame after
  entered : ∀ slot ∈ looksAt, ∃ value, after.values[slot]? = some (some value)

/-- A test with a frame is a test without, and leaves an entry of its slot. -/
theorem walkTest_cursor {machine : Machine} (recorded : machine.frame.Recorded program subject)
    (slot : Nat) (test : Test) :
    program.walkTest subject machine.cursor slot test =
        (program.applyTest subject machine slot test).map Machine.cursor ∧
      ∀ next, program.applyTest subject machine slot test = .ok next →
        Leaves program subject machine.frame (some slot) next.frame := by
  rcases load_spec recorded slot with
    ⟨fault, loaded, walked⟩ | ⟨value, after, loaded, walked, loads⟩
  · rw [walkTest, applyTest, walked, loaded]
    exact ⟨rfl, by simp⟩
  · rw [walkTest, applyTest, walked, loaded]
    refine ⟨rfl, ?_⟩
    rintro next ⟨⟩
    refine ⟨loads.entries, ?_⟩
    rintro other ⟨⟩
    exact ⟨value, loads.entered⟩

/-- A step with a frame is a step without, and leaves an entry of the slot that it looks at. -/
theorem walkStep_cursor {machine : Machine} (recorded : machine.frame.Recorded program subject)
    (op : Instruction) :
    program.walkStep subject machine.cursor op =
        (program.step subject machine op).map Machine.cursor ∧
      ∀ next, program.step subject machine op = .ok next →
        Leaves program subject machine.frame op.slot? next.frame := by
  have quiet {next : Machine} (same : next.frame = machine.frame) :
      ∀ other, (.ok next : Except Fault Machine) = .ok other →
        Leaves program subject machine.frame none other.frame := by
    rintro other ⟨⟩
    rw [same]
    exact ⟨.refl, by simp⟩
  cases op with
  | constant value => exact ⟨rfl, quiet rfl⟩
  | isNull slot => exact walkTest_cursor recorded slot .isNull
  | isAbsent slot => exact walkTest_cursor recorded slot .isAbsent
  | isKind kind slot => exact walkTest_cursor recorded slot (.isKind kind)
  | has slot key =>
      rw [walkStep, step]
      cases program.keys[key]? with
      | none => exact ⟨rfl, by simp⟩
      | some name => exact walkTest_cursor recorded slot (.has name)
  | onlyKeys slot keySet =>
      rw [walkStep, step]
      cases program.keySets[keySet]? with
      | none => exact ⟨rfl, by simp⟩
      | some names => exact walkTest_cursor recorded slot (.onlyKeys names)
  | not => exact ⟨rfl, quiet rfl⟩
  | jump branch target => exact ⟨rfl, quiet rfl⟩

/-- A run with a frame makes the steps of a run without. -/
theorem walkRun_cursor (steps : Nat) {machine : Machine}
    (recorded : machine.frame.Recorded program subject) :
    program.walkRun subject steps machine.cursor =
      (program.run subject steps machine).map Machine.cursor := by
  induction steps generalizing machine with
  | zero =>
      rw [walkRun, run, Machine.position_cursor]
      split <;> rfl
  | succ steps ih =>
      rw [walkRun, run, Machine.position_cursor]
      cases program.ops[machine.position]? with
      | none => rfl
      | some op =>
          rcases walkStep_cursor recorded op with ⟨same, leaves⟩
          simp only [same]
          cases stepped : program.step subject machine op with
          | error fault => rfl
          | ok next => exact ih (recorded.of_reflTransGen (leaves next stepped).entries)

theorem walkOutcome_eq (program : Program) (subject : Option Json) :
    program.walkOutcome subject = (program.outcome subject).map Machine.cursor := by
  rw [walkOutcome, outcome, ← Machine.cursor_initial program]
  exact walkRun_cursor _ (Frame.Recorded.fresh program subject)

theorem evaluateWalking_eq (program : Program) (subject : Option Json) :
    program.evaluateWalking subject = program.evaluate subject := by
  rw [evaluateWalking, evaluate, walkOutcome_eq]
  cases program.outcome subject <;> rfl

theorem Runs.entries {machine last : Machine} (runs : Runs program subject machine last)
    (recorded : machine.frame.Recorded program subject) :
    Relation.ReflTransGen (Enters program subject) machine.frame last.frame := by
  induction runs with
  | done machine => exact .refl
  | step fetched stepped forward rest ih =>
      have first := ((walkStep_cursor recorded _).2 _ stepped).entries
      exact first.trans (ih (recorded.of_reflTransGen first))

/-- What a run of a safe program comes to is on the way from its start to its end. -/
theorem Visits.runs (safe : program.Safe) {steps : Nat} {machine : Machine} {isSet : Bool}
    (visited : Visits program subject steps machine isSet) :
    Runs program subject (.initial program) machine ∧
      machine.frame.Faithful program.slots subject ∧ machine.position ≤ program.ops.size := by
  induction visited with
  | start =>
      exact ⟨.done _, Frame.faithful_fresh program.slots subject, Nat.zero_le _⟩
  | step visited fetched stepped ih =>
      rcases ih with ⟨runs, faithful, -⟩
      rcases step_of_safe safe faithful fetched with ⟨next, same, kept, forward, within⟩
      rw [stepped] at same
      cases same
      exact ⟨runs.trans (.single fetched stepped forward), kept, within⟩

/-- A run of a compiled program gives what it gives without a frame, where every test walks to its
slot from the value under test. Wherever the run comes to, its frame has been changed by single
entries, each at a slot that had none, behind the entry of the parent, and with the value that
walking finds, which is what the path of the slot leads to. A slot that an instruction has looked at
has its entry afterwards. An entry is given back as it is to who looks at its slot, which leaves the
frame unchanged, and it is still there at the end, so there are at most as many as slots. -/
theorem outcome_eq_walkOutcome {source : String} {program : Program}
    (compiled : compile source = .ok program) (subject : Option Json) :
    ∃ last, program.outcome subject = .ok last ∧
      program.walkOutcome subject = .ok last.cursor ∧
      program.evaluateWalking subject = program.evaluate subject ∧
      (∀ slot < program.slots.size,
        program.walk subject slot = .ok (Slot.value program.slots subject slot)) ∧
      last.frame.Recorded program subject ∧ last.frame.loaded.length ≤ program.slots.size ∧
      ∀ (steps : Nat) (machine : Machine) (isSet : Bool),
        Visits program subject steps machine isSet →
          machine.frame.Recorded program subject ∧
          (∀ (op : Instruction) (next : Machine), program.ops[machine.position]? = some op →
            program.step subject machine op = .ok next →
              Relation.ReflTransGen (Enters program subject) machine.frame next.frame ∧
                ∀ slot ∈ op.slot?, ∃ value, next.frame.values[slot]? = some (some value)) ∧
          ∀ (slot : Nat) (value : Option Json), machine.frame.values[slot]? = some (some value) →
            program.load subject machine.frame slot = .ok (value, machine.frame) ∧
              last.frame.values[slot]? = some (some value) := by
  rcases exists_isExpr_of_compile compiled with ⟨-, formula, -, -, rfl⟩
  have safe := (safe_ofFormula source formula).1
  generalize ofFormula source formula = program at safe
  have initial : (Machine.initial program).frame.Recorded program subject :=
    .fresh program subject
  rcases exists_runs_to_end safe (.initial program)
    (Frame.faithful_fresh program.slots subject) (Nat.zero_le _) with ⟨last, runs, reached⟩
  have outcome : program.outcome subject = .ok last :=
    run_of_runs runs (Nat.le_of_eq reached.symm) (Nat.sub_le _ _)
  have lastRecorded := initial.of_reflTransGen (runs.entries initial)
  refine ⟨last, outcome, by rw [walkOutcome_eq, outcome]; rfl, evaluateWalking_eq program subject,
    fun slot inside => walk_eq_value safe.slots_ordered inside, lastRecorded,
    lastRecorded.length_loaded_le, ?_⟩
  intro steps machine isSet visited
  rcases visited.runs safe with ⟨before, faithful, within⟩
  have recorded := initial.of_reflTransGen (before.entries initial)
  refine ⟨recorded, ?_, ?_⟩
  · intro op next _ stepped
    have leaves := (walkStep_cursor recorded op).2 next stepped
    exact ⟨leaves.entries, leaves.entered⟩
  · intro slot value entered
    refine ⟨load_of_entered entered, ?_⟩
    -- Going on from here leads to the same end, since a run has only one outcome.
    rcases exists_runs_to_end safe machine faithful within with ⟨other, behind, otherReached⟩
    have same : program.outcome subject = .ok other :=
      run_of_runs (before.trans behind) (Nat.le_of_eq otherReached.symm) (Nat.sub_le _ _)
    rw [outcome, Except.ok.injEq] at same
    exact same ▸ keeps_of_enters (behind.entries recorded) entered

/-- Three slots that are looked at out of order, one of them on both ways through a conditional. -/
theorem outcome_eq_walkOutcome_conditional :
    let source := "value[\"a\"][\"b\"] === undefined ? typeof value[\"a\"] === \"object\" : " ++
      "!(value[\"a\"][\"b\"] === null)"
    let program : Program :=
      ⟨#[.isAbsent 2, .jump .ifFalse 4, .isKind .object 1, .jump .always 6, .isNull 2, .not],
        #[.root, .member 0 "a", .member 1 "b"], #[], #[], source⟩
    compile source = .ok program ∧ ∀ subject : Option Json,
      ∃ last, program.outcome subject = .ok last ∧
        program.walkOutcome subject = .ok last.cursor ∧ last.frame.loaded.length ≤ 3 ∧
        ∀ (steps : Nat) (machine : Machine) (isSet : Bool),
          Visits program subject steps machine isSet →
            machine.frame.Recorded program subject ∧
            (∀ (op : Instruction) (next : Machine), program.ops[machine.position]? = some op →
              program.step subject machine op = .ok next →
                ∀ slot ∈ op.slot?, ∃ value, next.frame.values[slot]? = some (some value)) ∧
            ∀ (slot : Nat) (value : Option Json),
              machine.frame.values[slot]? = some (some value) →
                program.load subject machine.frame slot = .ok (value, machine.frame) ∧
                  last.frame.values[slot]? = some (some value) := by
  intro source program
  have compiled : compile source = .ok program := by decide +kernel
  refine ⟨compiled, fun subject => ?_⟩
  rcases outcome_eq_walkOutcome compiled subject with
    ⟨last, outcome, walked, -, -, -, loads, visits⟩
  refine ⟨last, outcome, walked, loads, ?_⟩
  intro steps machine isSet visited
  rcases visits steps machine isSet visited with ⟨recorded, leaves, kept⟩
  exact ⟨recorded, fun op next fetched stepped => (leaves op next fetched stepped).2, kept⟩

end Program

end JsonShape
