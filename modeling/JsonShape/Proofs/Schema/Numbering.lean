import JsonShape.Proofs.Schema.Emission

/-!
# How the declared fields of a schema are numbered

Reading the emitted text meets the declared fields in the order in which they are declared, each
before those inside it. So the table of slots is the root followed by one slot for each declared
field in that order, which refers to the slot of the node around it (`Field.slotsAt`).

A name is looked up in the table before it is added to it. It is never found there: a node declares
no name twice, and its slot is new when its first member is read.
-/

namespace JsonShape

open Check

namespace Field

mutual

/-- The names of all declared fields inside a field, each before those inside it. -/
def declaredNames : Field → List String
  | .leaf _ _ => []
  | .object members _ => declaredNamesIn members

def declaredNamesIn : List (String × Field) → List String
  | [] => []
  | (name, field) :: rest => name :: (declaredNames field ++ declaredNamesIn rest)

end

mutual

/-- The slots of all declared fields inside a field with the given slot, if `next` is the number
of the first of them. -/
def slotsAt (slot next : Nat) : Field → List Slot
  | .leaf _ _ => []
  | .object members _ => memberSlots slot next members

def memberSlots (slot next : Nat) : List (String × Field) → List Slot
  | [] => []
  | (name, field) :: rest =>
      .member slot name :: (slotsAt next (next + 1) field ++
        memberSlots slot (next + 1 + field.declaredNames.length) rest)

end

mutual

theorem length_slotsAt : (field : Field) → ∀ slot next : Nat,
    (field.slotsAt slot next).length = field.declaredNames.length
  | .leaf _ _, _, _ => rfl
  | .object members _, slot, next => length_memberSlots members slot next

theorem length_memberSlots : (members : List (String × Field)) → ∀ slot next : Nat,
    (memberSlots slot next members).length = (declaredNamesIn members).length
  | [], _, _ => rfl
  | (name, field) :: rest, slot, next => by
      simp only [memberSlots, declaredNamesIn, List.length_cons, List.length_append,
        length_slotsAt field, length_memberSlots rest]

end

mutual

theorem parent_of_mem_slotsAt {parent : Nat} {key : String} : (field : Field) →
    ∀ {slot next : Nat}, .member parent key ∈ field.slotsAt slot next →
      parent = slot ∨ next ≤ parent
  | .object members _, _, _, member => parent_of_mem_memberSlots members member

theorem parent_of_mem_memberSlots {parent : Nat} {key : String} :
    (members : List (String × Field)) → ∀ {slot next : Nat},
      .member parent key ∈ memberSlots slot next members → parent = slot ∨ next ≤ parent
  | (name, field) :: rest, slot, next, member => by
      rcases List.mem_cons.mp member with same | others
      · cases same
        exact .inl rfl
      rcases List.mem_append.mp others with inner | later
      · have bound := parent_of_mem_slotsAt field inner
        omega
      · have bound := parent_of_mem_memberSlots rest later
        omega

end

/-! ### The table of slots -/

section Table

variable {slots : Array Slot} {path : List String} {slot : Nat}

/-- A slot that is not in a table yet has no members there. -/
theorem not_mem_of_size_le (ordered : Slot.Ordered slots) {parent : Nat}
    (behind : slots.size ≤ parent + 1) (key : String) : .member parent key ∉ slots := by
  intro member
  rcases Array.getElem?_of_mem member with ⟨index, found⟩
  have inside := (Array.getElem?_eq_some_iff.mp found).1
  have before := ordered index parent key found
  omega

/-- A member that is not in a table yet is not added with another member and what is inside it. -/
theorem not_mem_behind_member {name other : String} (fresh : .member slot other ∉ slots)
    (differs : other ≠ name) (inside : slot < slots.size) {field : Field} :
    .member slot other ∉ slots.push (.member slot name) ++
      (field.slotsAt slots.size (slots.size + 1)).toArray := by
  intro member
  rcases Array.mem_append.mp member with old | below
  · rcases Array.mem_push.mp old with older | same
    · exact fresh older
    · cases same
      exact differs rfl
  · have bound := parent_of_mem_slotsAt field (List.mem_toArray.mp below)
    omega

/-- Paths that are known already add nothing to a table. -/
theorem internPaths_known (interned : Slot.Interned slots) (inside : slot < slots.size)
    (known : Slot.path slots slot = path) (paths : List (List String)) :
    Slot.internPaths slots (path :: paths) = Slot.internPaths slots paths := by
  rw [← known, Slot.internPaths, List.foldl_cons, Slot.internPath_path interned inside]
  rfl

/-- The path of a member that is not in a table yet adds its slot. -/
theorem internPaths_fresh (interned : Slot.Interned slots) (inside : slot < slots.size)
    (known : Slot.path slots slot = path) {name : String} (fresh : .member slot name ∉ slots)
    (paths : List (List String)) :
    Slot.internPaths slots ((path ++ [name]) :: paths) =
      Slot.internPaths (slots.push (.member slot name)) paths := by
  rw [← known, Slot.internPaths, List.foldl_cons, Slot.internPath_append,
    Slot.internPath_path interned inside, Slot.internPath, Slot.intern_of_not_mem fresh]
  rfl

theorem internPaths_guarded (interned : Slot.Interned slots) (inside : slot < slots.size)
    (known : Slot.path slots slot = path) (flags : Flags) (body : Formula) :
    Slot.internPaths slots (guardedFormula path flags body).mentions =
      Slot.internPaths slots body.mentions := by
  change Slot.internPaths slots (path :: path :: body.mentions) = _
  rw [internPaths_known interned inside known, internPaths_known interned inside known]

/-- The check for unknown names tests a path that is known. -/
theorem internPaths_unknownFormula {before : Formula} {after : Array Slot}
    (read : Slot.internPaths slots before.mentions = after) (interned : Slot.Interned after)
    (inside : slot < after.size) (known : Slot.path after slot = path) (mode : UnknownKeys)
    (declared : List String) :
    Slot.internPaths slots (unknownFormula mode path declared before).mentions = after := by
  cases mode with
  | ignore => exact read
  | reject =>
      change Slot.internPaths slots (before.mentions ++ [path]) = after
      rw [Slot.internPaths_append, read, internPaths_known interned inside known]
      rfl

mutual

/-- Reading the check of a field whose slot has no members yet adds the slots of the fields inside
it. -/
theorem internPaths_formulaAt (mode : UnknownKeys) : (field : Field) → field.WellFormed →
    ∀ {slots : Array Slot} {path : List String} {slot : Nat}, Slot.Interned slots →
      slot < slots.size → Slot.path slots slot = path → (∀ name, .member slot name ∉ slots) →
        Slot.internPaths slots (field.formulaAt mode path).mentions =
          slots ++ (field.slotsAt slot slots.size).toArray
  | .leaf type flags, _, slots, path, slot, interned, inside, known, _ => by
      rw [formulaAt, internPaths_guarded interned inside known]
      change Slot.internPaths slots [path] = _
      rw [internPaths_known interned inside known]
      simp [Slot.internPaths, slotsAt]
  | .object members flags, ⟨distinct, wellFormed⟩, slots, path, slot, interned, inside, known,
      fresh => by
      rw [formulaAt, internPaths_guarded interned inside known]
      let kind : Formula := .test path (.isKind .object)
      have kindRead : Slot.internPaths slots kind.mentions = slots :=
        internPaths_known interned inside known []
      have membersRead := internPaths_membersFormula mode members distinct wellFormed interned
        inside known (fun name _ => fresh name) kindRead
      rcases Slot.internPaths_spec interned (membersFormula mode path members kind).mentions with
        ⟨internedAfter, grown, -⟩
      rw [membersRead] at internedAfter grown
      apply internPaths_unknownFormula membersRead internedAfter
        (Nat.lt_of_lt_of_le inside grown.size_le)
      rw [grown.path_eq internedAfter.ordered inside, known]

theorem internPaths_membersFormula (mode : UnknownKeys) : (members : List (String × Field)) →
    (Members.names members).Nodup → WellFormedMembers members →
      ∀ {slots : Array Slot} {path : List String} {slot : Nat}, Slot.Interned slots →
        slot < slots.size → Slot.path slots slot = path →
        (∀ name ∈ Members.names members, .member slot name ∉ slots) →
          ∀ {first : Array Slot} {before : Formula},
            Slot.internPaths first before.mentions = slots →
              Slot.internPaths first (membersFormula mode path members before).mentions =
                slots ++ (memberSlots slot slots.size members).toArray
  | [], _, _, _, _, _, _, _, _, _, _, _, read => by
      rw [membersFormula, read]
      simp [memberSlots]
  | (name, field) :: rest, distinct, ⟨wellFormed, others⟩, slots, path, slot, interned, inside,
      known, fresh, first, before, read => by
      rcases List.nodup_cons.mp distinct with ⟨isNew, distinctRest⟩
      have notYet : .member slot name ∉ slots := fresh name (by simp)
      let inner := field.formulaAt mode (path ++ [name])
      let pushed := slots.push (.member slot name)
      have located := Slot.locates_intern interned inside name
      rw [Slot.intern_of_not_mem notYet, known] at located
      -- the slot of this member is the last one, so that no other slot refers to it
      have innerRead := internPaths_formulaAt mode field wellFormed located.interned
        located.inside located.path_eq
        (not_mem_of_size_le located.interned.ordered (by simp))
      have size : pushed.size = slots.size + 1 := Array.size_push _
      rw [size] at innerRead
      rcases Slot.internPaths_spec located.interned inner.mentions with ⟨internedAfter, grown, -⟩
      rw [innerRead] at internedAfter grown
      have grownAll := located.grown.trans grown
      have memberRead : Slot.internPaths first
          (Formula.and before (memberFormula path name field.flags.optional inner)).mentions =
            pushed ++ (field.slotsAt slots.size (slots.size + 1)).toArray := by
        change Slot.internPaths first (before.mentions ++ path :: (path ++ [name]) ::
          inner.mentions) = _
        rw [Slot.internPaths_append, read, internPaths_known interned inside known,
          internPaths_fresh interned inside known notYet, innerRead]
      have freshRest : ∀ other ∈ Members.names rest,
          .member slot other ∉ pushed ++ (field.slotsAt slots.size (slots.size + 1)).toArray := by
        intro other isOther
        apply not_mem_behind_member (fresh other (by simp [isOther])) _ inside
        rintro rfl
        exact isNew isOther
      rw [membersFormula, internPaths_membersFormula mode rest distinctRest others internedAfter
        (Nat.lt_of_lt_of_le inside grownAll.size_le)
        (by rw [grownAll.path_eq internedAfter.ordered inside, known]) freshRest memberRead]
      simp [memberSlots, length_slotsAt, Nat.add_assoc, Nat.add_comm]

end

/-- The table of slots of a schema. -/
theorem internPaths_root (mode : UnknownKeys) {field : Field} (wellFormed : field.WellFormed) :
    Slot.internPaths #[.root] (field.formulaAt mode []).mentions =
      (.root :: field.slotsAt 0 1).toArray := by
  have interned := Slot.Interned.initial
  rw [internPaths_formulaAt mode field wellFormed interned interned.size_pos interned.path_zero]
  · simp
  · exact not_mem_of_size_le interned.ordered (by simp)

/-! ### The numbers of paths -/

mutual

/-- The path of a field gets a slot, and the paths of the fields inside it the slots from `next` on,
in order of declaration. -/
def NumberedBy (number : List String → Nat) (path : List String) (slot next : Nat) : Field → Prop
  | .leaf _ _ => number path = slot
  | .object members _ => number path = slot ∧ MembersNumberedBy number path next members

def MembersNumberedBy (number : List String → Nat) (path : List String) (next : Nat) :
    List (String × Field) → Prop
  | [] => True
  | (name, field) :: rest =>
      NumberedBy number (path ++ [name]) next (next + 1) field ∧
        MembersNumberedBy number path (next + 1 + field.declaredNames.length) rest

end

mutual

/-- Where a table holds the slots of a field, they are the slots of the paths. -/
theorem numberedBy_of_occupies {slots : Array Slot} (interned : Slot.Interned slots) :
    (field : Field) → ∀ {path : List String} {slot next : Nat}, slot < slots.size →
      Slot.path slots slot = path → Occupies (field.slotsAt slot next) slots next →
        field.NumberedBy (Slot.number slots) path slot next
  | .leaf _ _, _, _, _, inside, known, _ => by
      rw [← known]
      exact Slot.number_path interned inside
  | .object members _, path, slot, next, inside, known, occupies => by
      refine ⟨?_, membersNumberedBy_of_occupies interned members known occupies⟩
      rw [← known]
      exact Slot.number_path interned inside

theorem membersNumberedBy_of_occupies {slots : Array Slot} (interned : Slot.Interned slots) :
    (members : List (String × Field)) → ∀ {path : List String} {slot next : Nat},
      Slot.path slots slot = path → Occupies (memberSlots slot next members) slots next →
        MembersNumberedBy (Slot.number slots) path next members
  | [], _, _, _, _, _ => trivial
  | (name, field) :: rest, path, slot, next, known, occupies => by
      have found : slots[next]? = some (.member slot name) := occupies 0 _ rfl
      have memberPath : Slot.path slots next = path ++ [name] := by
        rw [Slot.path_member interned.ordered found, known]
      have inside := (Array.getElem?_eq_some_iff.mp found).1
      have whole : Occupies ([.member slot name] ++ (field.slotsAt next (next + 1) ++
          memberSlots slot (next + 1 + field.declaredNames.length) rest)) slots next := occupies
      have behind := whole.right
      have later := behind.right
      rw [length_slotsAt] at later
      exact ⟨numberedBy_of_occupies interned field inside memberPath behind.left,
        membersNumberedBy_of_occupies interned rest known later⟩

end

/-- In the table of a schema, the root and the declared fields are numbered in order. -/
theorem numberedBy_internPaths (mode : UnknownKeys) {field : Field}
    (wellFormed : field.WellFormed) :
    field.NumberedBy
      (Slot.number (Slot.internPaths #[.root] (field.formulaAt mode []).mentions)) [] 0 1 := by
  rcases Slot.internPaths_spec .initial (field.formulaAt mode []).mentions with ⟨interned, -, -⟩
  rw [internPaths_root mode wellFormed] at interned ⊢
  apply numberedBy_of_occupies interned field interned.size_pos interned.path_zero
  have whole : Occupies ([.root] ++ field.slotsAt 0 1) (.root :: field.slotsAt 0 1).toArray 0 :=
    Occupies.self _
  exact whole.right

end Table

end Field

end JsonShape
