import JsonShape.Program.Evaluation
import JsonShape.Proofs.Check.Slots

/-!
# Runs of programs

A frame is faithful when every value entered in it is the value that its slot denotes. Looking at
a slot gives what the slot denotes and keeps the frame faithful, provided that members stand
behind their parents.

`Runs` connects two states of the machine by steps that all lead forwards. Because a position is
never reached twice, such steps never outnumber the instructions, and a run that reaches the end
is the run that `Program.run` makes (`run_of_runs`).
-/

namespace JsonShape

open Check

namespace Program

/-- Every entered value is what its slot denotes. -/
structure Frame.Faithful (slots : Array Slot) (subject : Option Json) (frame : Frame) : Prop where
  size_eq : frame.values.size = slots.size
  value_eq : ∀ (slot : Nat) (value : Option Json), frame.values[slot]? = some (some value) →
    value = Slot.value slots subject slot

variable {program : Program} {subject : Option Json}

theorem Frame.faithful_fresh (slots : Array Slot) (subject : Option Json) :
    (Frame.fresh slots.size).Faithful slots subject := by
  refine ⟨by simp [fresh], ?_⟩
  intro slot value entered
  simp [fresh, Array.getElem?_replicate] at entered

theorem Frame.Faithful.enter {slots : Array Slot} {frame : Frame}
    (faithful : frame.Faithful slots subject) {slot : Nat} {value : Option Json}
    (denoted : value = Slot.value slots subject slot) :
    (frame.enter slot value).Faithful slots subject := by
  refine ⟨by simp [Frame.enter, faithful.size_eq], ?_⟩
  intro other entry entered
  simp only [Frame.enter, Array.getElem?_setIfInBounds] at entered
  by_cases same : slot = other
  · subst other
    rw [if_pos rfl] at entered
    split at entered
    · simp only [Option.some.injEq] at entered
      rw [← entered, denoted]
    · simp at entered
  · rw [if_neg same] at entered
    exact faithful.value_eq other entry entered

/-- Looking at a slot gives the value that it denotes. -/
theorem load_of_faithful (ordered : Slot.Ordered program.slots) {frame : Frame} {slot : Nat}
    (faithful : frame.Faithful program.slots subject) (inside : slot < program.slots.size) :
    ∃ after, program.load subject frame slot = .ok (Slot.value program.slots subject slot, after) ∧
      after.Faithful program.slots subject := by
  induction slot using Nat.strongRecOn generalizing frame with
  | ind slot ih =>
      have entry : ∃ entry, frame.values[slot]? = some entry := by
        rw [← faithful.size_eq] at inside
        exact ⟨_, Array.getElem?_eq_getElem inside⟩
      rcases entry with ⟨_ | value, entered⟩
      · rw [load, entered]
        have definition : ∃ definition, program.slots[slot]? = some definition :=
          ⟨_, Array.getElem?_eq_getElem inside⟩
        rcases definition with ⟨_ | ⟨parent, key⟩, found⟩
        · simp only [found]
          have denoted : subject = Slot.value program.slots subject slot :=
            (Slot.value_root found).symm
          exact ⟨frame.enter slot subject, by rw [← denoted], faithful.enter denoted⟩
        · have before := ordered slot parent key found
          rcases ih parent before faithful (by omega) with ⟨after, loaded, afterFaithful⟩
          have denoted : (Slot.value program.slots subject parent).bind (Json.member? · key) =
              Slot.value program.slots subject slot := (Slot.value_member ordered found).symm
          simp only [found, if_pos before, loaded, denoted]
          exact ⟨_, rfl, afterFaithful.enter rfl⟩
      · rw [load, entered]
        exact ⟨frame, by rw [faithful.value_eq slot value entered], faithful⟩

/-- Steps of the machine, each of which leads forwards. -/
inductive Runs (program : Program) (subject : Option Json) : Machine → Machine → Prop
  | done (machine : Machine) : Runs program subject machine machine
  | step {machine next last : Machine} {op : Instruction}
      (fetched : program.ops[machine.position]? = some op)
      (stepped : program.step subject machine op = .ok next)
      (forward : machine.position < next.position)
      (rest : Runs program subject next last) : Runs program subject machine last

namespace Runs

theorem trans {first second third : Machine} (before : Runs program subject first second)
    (after : Runs program subject second third) : Runs program subject first third := by
  induction before with
  | done machine => exact after
  | step fetched stepped forward rest ih => exact .step fetched stepped forward (ih after)

theorem single {machine next : Machine} {op : Instruction}
    (fetched : program.ops[machine.position]? = some op)
    (stepped : program.step subject machine op = .ok next)
    (forward : machine.position < next.position) : Runs program subject machine next :=
  .step fetched stepped forward (.done next)

end Runs

/-- Steps that reach the end of the program are the run that it makes. -/
theorem run_of_runs {machine last : Machine} (runs : Runs program subject machine last)
    (atEnd : program.ops.size ≤ last.position) {steps : Nat}
    (enough : program.ops.size - machine.position ≤ steps) :
    program.run subject steps machine = .ok last := by
  induction runs generalizing steps with
  | done machine =>
      cases steps with
      | zero => exact if_neg (by omega)
      | succ steps => rw [run, Array.getElem?_eq_none atEnd]
  | step fetched stepped forward rest ih =>
      have inside := (Array.getElem?_eq_some_iff.mp fetched).1
      cases steps with
      | zero => omega
      | succ steps =>
          rw [run, fetched]
          simp only [stepped]
          exact ih atEnd (by omega)

/-- A test sets the accumulator to its outcome for the value that the slot denotes. -/
theorem applyTest_of_faithful (ordered : Slot.Ordered program.slots) (machine : Machine)
    {slot : Nat} (faithful : machine.frame.Faithful program.slots subject)
    (inside : slot < program.slots.size) (test : Test) :
    ∃ frame, program.applyTest subject machine slot test =
        .ok ⟨machine.position + 1, test.holds (Slot.value program.slots subject slot), frame⟩ ∧
      frame.Faithful program.slots subject := by
  rcases load_of_faithful ordered faithful inside with ⟨frame, loaded, frameFaithful⟩
  exact ⟨frame, by rw [applyTest, loaded], frameFaithful⟩

end Program

end JsonShape
