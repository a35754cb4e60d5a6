import JsonShape.Proofs.Program.Loading

/-!
# What a program cannot see

The skeleton of a value keeps its kind and, for an object, its member names and their skeletons. The
contents of strings and numbers are lost, and nothing is kept of truth values and arrays but that
they are neither.

A test depends on the skeleton alone (`passes_skeleton`), and members of values with equal skeletons
have equal skeletons again (`Alike.member?`). So the runs of a program for two such values go
through the same positions with the same accumulator, step by step (`walkStep_eq_of_alike`,
`walkRun_eq_of_alike`), and end with the same verdict.
-/

namespace JsonShape

open Check

namespace Json

inductive Skeleton
  | null
  | string
  | number
  /-- A truth value or an array. -/
  | other
  /-- An object, with its members in order of their names. -/
  | object (members : List (String × Skeleton))

namespace Skeleton

def includes : Kind → Skeleton → Bool
  | .string, .string => true
  | .number, .number => true
  | .object, .object _ => true
  | _, _ => false

def members? : Skeleton → Option (List (String × Skeleton))
  | .object members => some members
  | _ => none

def member? (skeleton : Skeleton) (name : String) : Option Skeleton :=
  skeleton.members?.bind (List.lookup name)

/-- Whether the values with a skeleton pass a test. -/
def passes : Test → Option Skeleton → Bool
  | .isNull, some .null => true
  | .isNull, _ => false
  | .isAbsent, skeleton => skeleton.isNone
  | .isKind kind, skeleton => skeleton.any (includes kind)
  | .has key, skeleton => skeleton.any fun skeleton => (skeleton.member? key).isSome
  | .onlyKeys keys, skeleton =>
      (skeleton.bind members?).any fun members => (Members.names members).all (· ∈ keys)

end Skeleton

mutual

def skeleton : Json → Skeleton
  | .null => .null
  | .string _ => .string
  | .number _ => .number
  | .bool _ => .other
  | .array _ => .other
  | .object members => .object (Members.sorted (memberSkeletons members))

def memberSkeletons : List (String × Json) → List (String × Skeleton)
  | [] => []
  | (name, value) :: rest => (name, skeleton value) :: memberSkeletons rest

end

theorem memberSkeletons_eq_map (members : List (String × Json)) :
    memberSkeletons members = members.map fun member => (member.1, member.2.skeleton) := by
  induction members with
  | nil => rfl
  | cons member rest ih => rw [memberSkeletons, List.map_cons, ih]

/-- The second value is the first with other contents at one place: another string, another number,
or another truth value or array. -/
inductive Recast : Json → Json → Prop
  | string (before after : String) : Recast (.string before) (.string after)
  | number (before after : Json.Number) : Recast (.number before) (.number after)
  | other {before after : Json} (first : before.skeleton = .other)
      (second : after.skeleton = .other) : Recast before after
  | inside {earlier later : List (String × Json)} {name : String} {before after : Json}
      (recast : Recast before after) :
      Recast (.object (earlier ++ (name, before) :: later))
        (.object (earlier ++ (name, after) :: later))

theorem Recast.skeleton_eq {before after : Json} (recast : Recast before after) :
    before.skeleton = after.skeleton := by
  induction recast with
  | string => rfl
  | number => rfl
  | other first second => rw [first, second]
  | inside recast ih =>
      simp only [skeleton, memberSkeletons_eq_map, List.map_append, List.map_cons, ih]

theorem names_memberSkeletons (members : List (String × Json)) :
    Members.names (memberSkeletons members) = Members.names members := by
  rw [memberSkeletons_eq_map, Members.names, List.map_map]
  rfl

theorem includes_skeleton (kind : Kind) (value : Json) :
    value.skeleton.includes kind = kind.includes value := by
  cases value <;> cases kind <;> rfl

theorem names_skeleton_perm {members : List (String × Json)}
    (distinct : (Members.names members).Nodup) :
    (Members.names (Members.sorted (memberSkeletons members))).Perm (Members.names members) := by
  rw [← names_memberSkeletons members] at distinct ⊢
  exact (Members.sorted_perm distinct).map Prod.fst

/-- What an object holds under a name has the skeleton that its own skeleton holds there. -/
theorem WellFormed.member?_skeleton {value : Json} (wellFormed : value.WellFormed) (name : String) :
    value.skeleton.member? name = (value.member? name).map skeleton := by
  cases value with
  | object members =>
      have distinct : (Members.names (memberSkeletons members)).Nodup :=
        names_memberSkeletons members ▸ wellFormed.1
      change (Members.sorted (memberSkeletons members)).lookup name = _
      rw [Members.lookup_sorted distinct, memberSkeletons_eq_map, Members.lookup_map,
        member?_object]
  | null | bool | number | string | array => rfl

theorem WellFormed.of_member? {value member : Json} {name : String} (wellFormed : value.WellFormed)
    (found : value.member? name = some member) : member.WellFormed := by
  cases value with
  | object members =>
      exact wellFormedMembers_iff.mp wellFormed.2 _ (Members.mem_of_lookup found)
  | null | bool | number | string | array => cases found

/-- A test sees no more of a value than its skeleton. -/
theorem passes_skeleton {subject : Option Json} (wellFormed : ∀ value ∈ subject, value.WellFormed)
    (test : Test) : Skeleton.passes test (subject.map skeleton) = test.holds subject := by
  cases subject with
  | none => cases test <;> rfl
  | some value =>
      cases test with
      | isNull => cases value <;> rfl
      | isAbsent => rfl
      | isKind kind => exact includes_skeleton kind value
      | has key =>
          change (value.skeleton.member? key).isSome = (value.member? key).isSome
          rw [(wellFormed value rfl).member?_skeleton, Option.isSome_map]
      | onlyKeys keys =>
          cases value with
          | object members => exact (names_skeleton_perm (wellFormed _ rfl).1).all_eq
          | null | bool | number | string | array => rfl

/-- Two values with the same skeleton, or two absences of one. -/
structure Alike (first second : Option Json) : Prop where
  wellFormed : ∀ value ∈ first, value.WellFormed
  otherWellFormed : ∀ value ∈ second, value.WellFormed
  skeleton_eq : first.map skeleton = second.map skeleton

namespace Alike

variable {first second : Option Json}

theorem skeleton_member? {subject : Option Json} (wellFormed : ∀ value ∈ subject, value.WellFormed)
    (name : String) :
    (subject.bind (Json.member? · name)).map skeleton =
      (subject.map skeleton).bind (Skeleton.member? · name) := by
  cases subject with
  | none => rfl
  | some value => exact ((wellFormed value rfl).member?_skeleton name).symm

/-- The members of alike values under one name are alike. -/
theorem member? (alike : Alike first second) (name : String) :
    Alike (first.bind (Json.member? · name)) (second.bind (Json.member? · name)) := by
  refine ⟨?_, ?_, ?_⟩
  · intro member found
    rcases Option.bind_eq_some_iff.mp found with ⟨value, isFirst, isMember⟩
    exact (alike.wellFormed value isFirst).of_member? isMember
  · intro member found
    rcases Option.bind_eq_some_iff.mp found with ⟨value, isSecond, isMember⟩
    exact (alike.otherWellFormed value isSecond).of_member? isMember
  · rw [skeleton_member? alike.wellFormed, skeleton_member? alike.otherWellFormed,
      alike.skeleton_eq]

theorem holds_eq (alike : Alike first second) (test : Test) :
    test.holds first = test.holds second := by
  rw [← passes_skeleton alike.wellFormed, ← passes_skeleton alike.otherWellFormed,
    alike.skeleton_eq]

end Alike

end Json

namespace Program

variable {program : Program} {first second : Option Json}

/-- Walking to a slot from alike values reaches alike values, or ends with one fault. -/
theorem walk_of_alike (program : Program) (alike : Json.Alike first second) (slot : Nat) :
    (∃ fault, program.walk first slot = .error fault ∧ program.walk second slot = .error fault) ∨
      ∃ value other, program.walk first slot = .ok value ∧ program.walk second slot = .ok other ∧
        Json.Alike value other := by
  induction slot using Nat.strongRecOn with
  | ind slot ih =>
      rw [walk, walk]
      cases program.slots[slot]? with
      | none => exact .inl ⟨_, rfl, rfl⟩
      | some definition =>
          cases definition with
          | root => exact .inr ⟨first, second, rfl, rfl, alike⟩
          | member parent key =>
              by_cases before : parent < slot
              · rcases ih parent before with
                  ⟨fault, walked, otherWalked⟩ | ⟨value, other, walked, otherWalked, reached⟩
                · simp only [if_pos before, walked, otherWalked]
                  exact .inl ⟨fault, rfl, rfl⟩
                · simp only [if_pos before, walked, otherWalked]
                  exact .inr ⟨_, _, rfl, rfl, reached.member? key⟩
              · simp only [if_neg before]
                exact .inl ⟨_, rfl, rfl⟩

theorem walkTest_eq_of_alike (alike : Json.Alike first second) (cursor : Cursor) (slot : Nat)
    (test : Test) :
    program.walkTest first cursor slot test = program.walkTest second cursor slot test := by
  rw [walkTest, walkTest]
  rcases walk_of_alike program alike slot with
    ⟨fault, walked, otherWalked⟩ | ⟨value, other, walked, otherWalked, reached⟩
  · rw [walked, otherWalked]
  · simp only [walked, otherWalked, reached.holds_eq]

/-- An instruction does the same to the position and the accumulator for alike values. -/
theorem walkStep_eq_of_alike (alike : Json.Alike first second) (cursor : Cursor)
    (op : Instruction) :
    program.walkStep first cursor op = program.walkStep second cursor op := by
  cases op with
  | isNull slot => exact walkTest_eq_of_alike alike cursor slot .isNull
  | isAbsent slot => exact walkTest_eq_of_alike alike cursor slot .isAbsent
  | isKind kind slot => exact walkTest_eq_of_alike alike cursor slot (.isKind kind)
  | has slot key =>
      rw [walkStep, walkStep]
      cases program.keys[key]? with
      | none => rfl
      | some name => exact walkTest_eq_of_alike alike cursor slot (.has name)
  | onlyKeys slot keySet =>
      rw [walkStep, walkStep]
      cases program.keySets[keySet]? with
      | none => rfl
      | some names => exact walkTest_eq_of_alike alike cursor slot (.onlyKeys names)
  | constant | not | jump => rfl

theorem walkRun_eq_of_alike (alike : Json.Alike first second) (steps : Nat) (cursor : Cursor) :
    program.walkRun first steps cursor = program.walkRun second steps cursor := by
  induction steps generalizing cursor with
  | zero => rfl
  | succ steps ih =>
      rw [walkRun, walkRun]
      cases program.ops[cursor.position]? with
      | none => rfl
      | some op =>
          simp only [walkStep_eq_of_alike alike]
          cases program.walkStep second cursor op with
          | error fault => rfl
          | ok next => exact ih next

/-- A compiled program does not see more of a value than its skeleton. For two values with the same
skeleton it ends at the same place with the same accumulator, and so it accepts both or none. In
particular its verdict stays when the contents of a string, a number, a truth value or an array
change anywhere outside of arrays. -/
theorem evaluate_eq_of_skeleton_eq {source : String} {program : Program}
    (compiled : compile source = .ok program) :
    (∀ first second : Option Json, (∀ value ∈ first, value.WellFormed) →
      (∀ value ∈ second, value.WellFormed) →
      first.map Json.skeleton = second.map Json.skeleton →
        program.evaluate first = program.evaluate second ∧
          ∃ last otherLast, program.outcome first = .ok last ∧
            program.outcome second = .ok otherLast ∧ last.cursor = otherLast.cursor) ∧
    ∀ before after : Json, Json.Recast before after → before.WellFormed → after.WellFormed →
      program.evaluate (some before) = program.evaluate (some after) := by
  rcases exists_isExpr_of_compile compiled with ⟨-, formula, -, -, rfl⟩
  have safe := (safe_ofFormula source formula).1
  generalize ofFormula source formula = program at safe
  have ends (subject : Option Json) : ∃ last, program.outcome subject = .ok last := by
    rcases exists_runs_to_end safe (.initial program)
      (Frame.faithful_fresh program.slots subject) (Nat.zero_le _) with ⟨last, runs, reached⟩
    exact ⟨last, run_of_runs runs (Nat.le_of_eq reached.symm) (Nat.sub_le _ _)⟩
  have lockstep {first second : Option Json} (alike : Json.Alike first second) :
      program.walkOutcome first = program.walkOutcome second :=
    walkRun_eq_of_alike alike _ _
  have sameVerdict {first second : Option Json} (alike : Json.Alike first second) :
      program.evaluate first = program.evaluate second := by
    rw [← evaluateWalking_eq, ← evaluateWalking_eq, evaluateWalking, evaluateWalking,
      lockstep alike]
  refine ⟨fun first second wellFormed otherWellFormed same => ?_, ?_⟩
  · have alike : Json.Alike first second := ⟨wellFormed, otherWellFormed, same⟩
    rcases ends first with ⟨last, outcome⟩
    rcases ends second with ⟨otherLast, otherOutcome⟩
    have sameEnd := lockstep alike
    rw [walkOutcome_eq, walkOutcome_eq, outcome, otherOutcome] at sameEnd
    exact ⟨sameVerdict alike, last, otherLast, outcome, otherOutcome, Except.ok.inj sameEnd⟩
  · intro before after recast wellFormed otherWellFormed
    refine sameVerdict ⟨?_, ?_, congrArg some recast.skeleton_eq⟩
    · rintro value ⟨⟩
      exact wellFormed
    · rintro value ⟨⟩
      exact otherWellFormed

/-- Two objects that differ in a string, in a number and inside of an array. -/
theorem evaluate_eq_of_skeleton_eq_members :
    let source := "typeof value[\"a\"] === \"string\" && !(\"b\" in value[\"c\"])"
    let first : Json := .object
      [("a", .string "x"), ("c", .object [("n", .number (.integer 1))]), ("d", .array [])]
    let second : Json := .object
      [("a", .string "yz"), ("c", .object [("n", .number (.integer 2))]), ("d", .bool true)]
    ∃ program, compile source = .ok program ∧
      program.evaluate (some first) = program.evaluate (some second) := by
  intro source first second
  have compiles : (compile source).isOk = true := by decide +kernel
  cases compiled : compile source with
  | error error =>
      rw [compiled] at compiles
      cases compiles
  | ok program =>
      have wellFormed : ∀ value ∈ some first, value.WellFormed := by
        simp [first, Json.WellFormed, Json.WellFormedMembers, Json.WellFormedItems]
      have otherWellFormed : ∀ value ∈ some second, value.WellFormed := by
        simp [second, Json.WellFormed, Json.WellFormedMembers]
      exact ⟨program, rfl, ((evaluate_eq_of_skeleton_eq compiled).1 (some first) (some second)
        wellFormed otherWellFormed rfl).1⟩

end Program

end JsonShape
