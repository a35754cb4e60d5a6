import JsonShape.Check.Expr

/-!
# Tables of slots

A table that interning builds begins with the root, and every other slot is a member of an earlier
one that no other slot repeats. In such a table a slot and its path determine each other:
`internPath_path` finds a slot by its path, and `path_injective` says that no other slot has that
path. Interning only ever adds slots at the end, so a slot keeps its path and a path its slot.
-/

namespace JsonShape

namespace Check.Slot

variable {slots before after : Array Slot} {subject : Option Json} {slot parent : Nat}
  {key : String}

theorem path_root (found : slots[slot]? = some .root) : path slots slot = [] := by
  rw [path, found]

theorem path_member (ordered : Ordered slots) (found : slots[slot]? = some (.member parent key)) :
    path slots slot = path slots parent ++ [key] := by
  rw [path, found]
  exact if_pos (ordered slot parent key found)

theorem value_root (found : slots[slot]? = some .root) : value slots subject slot = subject := by
  rw [value, path_root found]
  rfl

theorem value_member (ordered : Ordered slots)
    (found : slots[slot]? = some (.member parent key)) :
    value slots subject slot = (value slots subject parent).bind (Json.member? · key) := by
  rw [value, path_member ordered found, follow, List.foldl_append]
  rfl

/-- A table as interning builds it. -/
structure Interned (slots : Array Slot) : Prop where
  root_first : slots[0]? = some .root
  ordered : Ordered slots
  distinct : ∀ (first second : Nat) (definition : Slot), slots[first]? = some definition →
    slots[second]? = some definition → first = second

/-- All slots of one table stand in another at the same places. -/
def Extends (before after : Array Slot) : Prop :=
  ∀ (slot : Nat) (definition : Slot), before[slot]? = some definition →
    after[slot]? = some definition

namespace Extends

theorem refl (slots : Array Slot) : Extends slots slots :=
  fun _ _ found => found

theorem trans {first second third : Array Slot} (earlier : Extends first second)
    (later : Extends second third) : Extends first third :=
  fun slot definition found => later slot definition (earlier slot definition found)

theorem size_le (grown : Extends before after) : before.size ≤ after.size := by
  by_cases empty : before.size = 0
  · omega
  · have last : before.size - 1 < before.size := by omega
    have kept := grown (before.size - 1) _ (Array.getElem?_eq_getElem last)
    have inside := (Array.getElem?_eq_some_iff.mp kept).1
    omega

/-- A slot keeps its path when a table grows. -/
theorem path_eq (grown : Extends before after) (ordered : Ordered after)
    (inside : slot < before.size) : path after slot = path before slot := by
  induction slot using Nat.strongRecOn with
  | ind slot ih =>
      have found := Array.getElem?_eq_getElem inside
      generalize before[slot] = definition at found
      have kept := grown slot definition found
      cases definition with
      | root => rw [path_root found, path_root kept]
      | member parent key =>
          have smaller := ordered slot parent key kept
          have orderedBefore : path before slot = path before parent ++ [key] := by
            rw [path, found]
            exact if_pos smaller
          rw [path_member ordered kept, orderedBefore, ih parent smaller (by omega)]

end Extends

namespace Interned

theorem initial : Interned #[.root] := by
  refine ⟨rfl, ?_, ?_⟩
  · intro slot parent key found
    cases slot with
    | zero => simp at found
    | succ slot => simp at found
  · intro first second definition foundFirst foundSecond
    have firstInside := (Array.getElem?_eq_some_iff.mp foundFirst).1
    have secondInside := (Array.getElem?_eq_some_iff.mp foundSecond).1
    simp only [Array.size_singleton] at firstInside secondInside
    omega

theorem size_pos (interned : Interned slots) : 0 < slots.size :=
  (Array.getElem?_eq_some_iff.mp interned.root_first).1

theorem path_zero (interned : Interned slots) : path slots 0 = [] :=
  path_root interned.root_first

theorem push (interned : Interned slots) (inside : parent < slots.size)
    (fresh : ∀ slot : Nat, slots[slot]? ≠ some (.member parent key)) :
    Interned (slots.push (.member parent key)) := by
  refine ⟨?_, ?_, ?_⟩
  · rw [Array.getElem?_push, if_neg (by have := interned.size_pos; omega)]
    exact interned.root_first
  · intro slot other name found
    rw [Array.getElem?_push] at found
    split at found
    · cases found
      omega
    · exact interned.ordered slot other name found
  · intro first second definition foundFirst foundSecond
    rw [Array.getElem?_push] at foundFirst foundSecond
    split at foundFirst
    · split at foundSecond
      · omega
      · cases foundFirst
        exact absurd foundSecond (fresh second)
    · split at foundSecond
      · cases foundSecond
        exact absurd foundFirst (fresh first)
      · exact interned.distinct first second definition foundFirst foundSecond

/-- Distinct slots have distinct paths. -/
theorem path_injective (interned : Interned slots) {first second : Nat}
    (firstInside : first < slots.size) (secondInside : second < slots.size)
    (same : path slots first = path slots second) : first = second := by
  induction first using Nat.strongRecOn generalizing second with
  | ind first ih =>
      have foundFirst := Array.getElem?_eq_getElem firstInside
      have foundSecond := Array.getElem?_eq_getElem secondInside
      generalize slots[first] = firstDefinition at foundFirst
      generalize slots[second] = secondDefinition at foundSecond
      cases firstDefinition with
      | root =>
          cases secondDefinition with
          | root => exact interned.distinct first second .root foundFirst foundSecond
          | member parent key =>
              rw [path_root foundFirst, path_member interned.ordered foundSecond] at same
              simp at same
      | member parent key =>
          cases secondDefinition with
          | root =>
              rw [path_member interned.ordered foundFirst, path_root foundSecond] at same
              simp at same
          | member otherParent otherKey =>
              rw [path_member interned.ordered foundFirst,
                path_member interned.ordered foundSecond] at same
              have parts := List.append_inj' same rfl
              simp only [List.cons.injEq, and_true] at parts
              have firstSmaller := interned.ordered first parent key foundFirst
              have secondSmaller := interned.ordered second otherParent otherKey foundSecond
              have sameParent := ih parent firstSmaller (by omega) (by omega) parts.1
              apply interned.distinct first second (.member parent key) foundFirst
              rw [foundSecond, sameParent, parts.2]

end Interned

/-- What interning a member does to a table. -/
theorem intern_cases (slots : Array Slot) (parent : Nat) (key : String) :
    (∃ slot, intern slots parent key = (slot, slots) ∧
        slots[slot]? = some (.member parent key)) ∨
      (intern slots parent key = (slots.size, slots.push (.member parent key)) ∧
        ∀ slot : Nat, slots[slot]? ≠ some (.member parent key)) := by
  cases position : slots.findIdx? (· = .member parent key) with
  | some slot =>
      left
      rcases Array.findIdx?_eq_some_iff_getElem.mp position with ⟨inside, equal, -⟩
      refine ⟨slot, by rw [intern, position], ?_⟩
      rw [Array.getElem?_eq_getElem inside, of_decide_eq_true equal]
  | none =>
      right
      refine ⟨by rw [intern, position], ?_⟩
      intro slot found
      have absent := Array.findIdx?_eq_none_iff.mp position _ (Array.mem_of_getElem? found)
      simp at absent

/-- The slot of a member that is in the table already. -/
theorem intern_of_found (interned : Interned slots)
    (found : slots[slot]? = some (.member parent key)) :
    intern slots parent key = (slot, slots) := by
  rcases intern_cases slots parent key with ⟨other, result, foundOther⟩ | ⟨-, fresh⟩
  · rw [result, interned.distinct other slot _ foundOther found]
  · exact absurd found (fresh slot)

/-- A member that is not in the table yet gets the next slot. -/
theorem intern_of_not_mem (fresh : .member parent key ∉ slots) :
    intern slots parent key = (slots.size, slots.push (.member parent key)) := by
  rcases intern_cases slots parent key with ⟨slot, -, found⟩ | ⟨result, -⟩
  · exact absurd (Array.mem_of_getElem? found) fresh
  · exact result

/-- A slot of a grown table that located along a path. -/
structure Locates (before : Array Slot) (path : List String) (slot : Nat) (after : Array Slot) :
    Prop where
  interned : Interned after
  grown : Extends before after
  inside : slot < after.size
  path_eq : Slot.path after slot = path

theorem locates_intern (interned : Interned slots) (inside : parent < slots.size) (key : String) :
    Locates slots (path slots parent ++ [key]) (intern slots parent key).1
      (intern slots parent key).2 := by
  rcases intern_cases slots parent key with ⟨slot, result, found⟩ | ⟨result, fresh⟩
  · rw [result]
    exact ⟨interned, .refl slots, (Array.getElem?_eq_some_iff.mp found).1,
      path_member interned.ordered found⟩
  · have grown : Extends slots (slots.push (.member parent key)) := by
      intro slot definition found
      have old := (Array.getElem?_eq_some_iff.mp found).1
      rw [Array.getElem?_push, if_neg (by omega), found]
    have pushed := interned.push inside fresh
    rw [result]
    refine ⟨pushed, grown, by simp, ?_⟩
    rw [path_member pushed.ordered Array.getElem?_push_size, grown.path_eq pushed.ordered inside]

theorem locates_internPath (interned : Interned slots) {base : Nat} (inside : base < slots.size)
    (keys : List String) :
    Locates slots (path slots base ++ keys) (internPath slots base keys).1
      (internPath slots base keys).2 := by
  induction keys generalizing slots base with
  | nil => exact ⟨interned, .refl slots, inside, by simp [internPath]⟩
  | cons key rest ih =>
      have first := locates_intern interned inside key
      have later := ih first.interned first.inside
      refine ⟨later.interned, first.grown.trans later.grown, later.inside, ?_⟩
      rw [internPath, later.path_eq, first.path_eq, List.append_assoc, List.singleton_append]

theorem internPath_append (slots : Array Slot) (base : Nat) (first second : List String) :
    internPath slots base (first ++ second) =
      internPath (internPath slots base first).2 (internPath slots base first).1 second := by
  induction first generalizing slots base with
  | nil => rfl
  | cons key rest ih => exact ih _ _

/-- A slot is found by its path, and nothing is added to the table. -/
theorem internPath_path (interned : Interned slots) (inside : slot < slots.size) :
    internPath slots 0 (path slots slot) = (slot, slots) := by
  induction slot using Nat.strongRecOn with
  | ind slot ih =>
      have found := Array.getElem?_eq_getElem inside
      generalize slots[slot] = definition at found
      cases definition with
      | root =>
          rw [path_root found, interned.distinct slot 0 .root found interned.root_first]
          rfl
      | member parent key =>
          have smaller := interned.ordered slot parent key found
          rw [path_member interned.ordered found, internPath_append,
            ih parent smaller (by omega)]
          exact intern_of_found interned found

/-- Following more names from a slot is following all names from the root. -/
theorem internPath_base (interned : Interned slots) {base : Nat} (inside : base < slots.size)
    (keys : List String) :
    internPath slots base keys = internPath slots 0 (path slots base ++ keys) := by
  rw [internPath_append, internPath_path interned inside]

/-- The slot to which a path located. -/
def number (slots : Array Slot) (path : List String) : Nat :=
  (internPath slots 0 path).1

/-- The table with the slots of some paths, and those on the way, in order of mention. -/
def internPaths (slots : Array Slot) (paths : List (List String)) : Array Slot :=
  paths.foldl (fun slots path => (internPath slots 0 path).2) slots

/-- Some slot of the table has the path. -/
def Known (slots : Array Slot) (path : List String) : Prop :=
  ∃ slot, slot < slots.size ∧ Slot.path slots slot = path

variable {path : List String}

theorem number_path (interned : Interned slots) (inside : slot < slots.size) :
    number slots (Slot.path slots slot) = slot := by
  rw [number, internPath_path interned inside]

theorem Known.path_number (interned : Interned slots) (known : Known slots path) :
    Slot.path slots (number slots path) = path := by
  rcases known with ⟨slot, inside, rfl⟩
  rw [number_path interned inside]

theorem Known.number_lt (interned : Interned slots) (known : Known slots path) :
    number slots path < slots.size := by
  rcases known with ⟨slot, inside, rfl⟩
  rw [number_path interned inside]
  exact inside

theorem Known.grow (known : Known before path) (grown : Extends before after)
    (ordered : Ordered after) : Known after path := by
  rcases known with ⟨slot, inside, rfl⟩
  exact ⟨slot, Nat.lt_of_lt_of_le inside grown.size_le, grown.path_eq ordered inside⟩

/-- A path keeps its slot when a table grows. -/
theorem Known.number_eq (known : Known before path) (internedBefore : Interned before)
    (internedAfter : Interned after) (grown : Extends before after) :
    number after path = number before path := by
  rcases known with ⟨slot, inside, rfl⟩
  have kept := grown.path_eq internedAfter.ordered inside
  rw [number_path internedBefore inside, ← kept,
    number_path internedAfter (Nat.lt_of_lt_of_le inside grown.size_le)]

theorem known_nil (interned : Interned slots) : Known slots [] :=
  ⟨0, interned.size_pos, interned.path_zero⟩

theorem Locates.known (located : Locates before path slot after) : Known after path :=
  ⟨slot, located.inside, located.path_eq⟩

theorem Locates.number_eq (located : Locates before path slot after) :
    number after path = slot := by
  rw [← located.path_eq, number_path located.interned located.inside]

theorem locates_number (interned : Interned slots) (path : List String) :
    Locates slots path (number slots path) (internPath slots 0 path).2 := by
  have located := locates_internPath interned interned.size_pos path
  rw [interned.path_zero, List.nil_append] at located
  exact located

theorem internPaths_append (slots : Array Slot) (first second : List (List String)) :
    internPaths slots (first ++ second) = internPaths (internPaths slots first) second :=
  List.foldl_append

/-- What interning paths does to a table: it grows, and all the paths are known then. -/
theorem internPaths_spec (interned : Interned slots) (paths : List (List String)) :
    Interned (internPaths slots paths) ∧ Extends slots (internPaths slots paths) ∧
      ∀ path ∈ paths, Known (internPaths slots paths) path := by
  induction paths generalizing slots with
  | nil => exact ⟨interned, .refl slots, by simp⟩
  | cons path rest ih =>
      have first := locates_number interned path
      rcases ih first.interned with ⟨internedRest, grownRest, knownRest⟩
      refine ⟨internedRest, first.grown.trans grownRest, ?_⟩
      intro other member
      rcases List.mem_cons.mp member with rfl | later
      · exact first.known.grow grownRest internedRest.ordered
      · exact knownRest other later

end Check.Slot

end JsonShape
