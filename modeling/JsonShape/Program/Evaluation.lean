import JsonShape.Program.Basic

/-!
# Running programs

The machine keeps a frame in which the value of a slot is entered when an instruction first looks
at it; `Frame.loaded` lists the slots in that order, latest first. Entering a member looks at its
parent first.

A run that leaves the tables, or does not end within as many steps as the program has
instructions, ends with a fault. A fault counts as a rejection, but the programs that compiling
yields have none.
-/

namespace JsonShape

namespace Program

/-- The values of slots that a run has looked at. An entry is missing until its slot is looked at,
and a slot may turn out to be absent. -/
structure Frame where
  values : Array (Option (Option Json))
  loaded : List Nat

/-- Why a run stops early. -/
inductive Fault
  | noSlot (slot : Nat)
  | noKey (key : Nat)
  | noKeySet (keySet : Nat)
  | endless
  deriving Repr, DecidableEq

def Frame.fresh (slots : Nat) : Frame :=
  ⟨Array.replicate slots none, []⟩

/-- Enters the value of a slot. -/
def Frame.enter (frame : Frame) (slot : Nat) (value : Option Json) : Frame :=
  ⟨frame.values.setIfInBounds slot (some value), slot :: frame.loaded⟩

/-- The value of a slot, and the frame in which it has been entered. -/
def load (program : Program) (subject : Option Json) (frame : Frame) (slot : Nat) :
    Except Fault (Option Json × Frame) :=
  match frame.values[slot]? with
  | none => .error (.noSlot slot)
  | some (some value) => .ok (value, frame)
  | some none =>
      match program.slots[slot]? with
      | none => .error (.noSlot slot)
      | some .root => .ok (subject, frame.enter slot subject)
      | some (.member parent key) =>
          if parent < slot then
            match load program subject frame parent with
            | .error fault => .error fault
            | .ok (object, frame) =>
                .ok (object.bind (Json.member? · key),
                  frame.enter slot (object.bind (Json.member? · key)))
          else .error (.noSlot parent)
termination_by slot

structure Machine where
  position : Nat
  accumulator : Bool
  frame : Frame

/-- Sets the accumulator to the outcome of a test of a slot. -/
def applyTest (program : Program) (subject : Option Json) (machine : Machine) (slot : Nat)
    (test : Check.Test) : Except Fault Machine :=
  match program.load subject machine.frame slot with
  | .error fault => .error fault
  | .ok (value, frame) => .ok ⟨machine.position + 1, test.holds value, frame⟩

def step (program : Program) (subject : Option Json) (machine : Machine) :
    Instruction → Except Fault Machine
  | .constant value => .ok { machine with position := machine.position + 1, accumulator := value }
  | .isNull slot => program.applyTest subject machine slot .isNull
  | .isAbsent slot => program.applyTest subject machine slot .isAbsent
  | .isKind kind slot => program.applyTest subject machine slot (.isKind kind)
  | .has slot key =>
      match program.keys[key]? with
      | none => .error (.noKey key)
      | some name => program.applyTest subject machine slot (.has name)
  | .onlyKeys slot keySet =>
      match program.keySets[keySet]? with
      | none => .error (.noKeySet keySet)
      | some names => program.applyTest subject machine slot (.onlyKeys names)
  | .not =>
      .ok { machine with
        position := machine.position + 1
        accumulator := !machine.accumulator }
  | .jump branch target =>
      .ok { machine with
        position := if branch.taken machine.accumulator then target else machine.position + 1 }

/-- Carries out instructions until the end of the program, at most as many as given. -/
def run (program : Program) (subject : Option Json) : Nat → Machine → Except Fault Machine
  | 0, machine => if machine.position < program.ops.size then .error .endless else .ok machine
  | steps + 1, machine =>
      match program.ops[machine.position]? with
      | none => .ok machine
      | some op =>
          match program.step subject machine op with
          | .error fault => .error fault
          | .ok next => program.run subject steps next

def Machine.initial (program : Program) : Machine :=
  ⟨0, false, Frame.fresh program.slots.size⟩

def outcome (program : Program) (subject : Option Json) : Except Fault Machine :=
  program.run subject program.ops.size (Machine.initial program)

/-- Whether a program accepts a value, or the absence of one. -/
def evaluate (program : Program) (subject : Option Json) : Bool :=
  match program.outcome subject with
  | .ok machine => machine.accumulator
  | .error _ => false

end Program

end JsonShape
