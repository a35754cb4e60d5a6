import Mathlib.Data.List.Forall2
import Mathlib.Data.List.Infix
import JsonShape.Proofs.Check.Slots

/-!
# How a table numbers its paths

`Slot.paths` lists the paths of a table, slot by slot. Interning paths adds what is new among them
and among what leads to them: the list becomes the paths and their beginnings in the order in which
they are first mentioned, shorter beginnings first and each of them once (`paths_internPaths`).
`Spells` says which path a slot stands for without computing it.
-/

namespace JsonShape

namespace Check.Slot

variable {slots : Array Slot} {parent : Nat} {key : String} {listed : List (List String)}

/-- The chain of members from the root down to a slot has these names. -/
inductive Spells (slots : Array Slot) : Nat → List String → Prop
  | root {slot : Nat} (found : slots[slot]? = some .root) : Spells slots slot []
  | member {slot parent : Nat} {key : String} {keys : List String}
      (found : slots[slot]? = some (.member parent key)) (chain : Spells slots parent keys) :
      Spells slots slot (keys ++ [key])

theorem Interned.spells_path (interned : Interned slots) {slot : Nat}
    (inside : slot < slots.size) : Spells slots slot (path slots slot) := by
  induction slot using Nat.strongRecOn with
  | ind slot ih =>
      have found := Array.getElem?_eq_getElem inside
      generalize slots[slot] = definition at found
      cases definition with
      | root =>
          rw [path_root found]
          exact .root found
      | member parent key =>
          have smaller := interned.ordered slot parent key found
          rw [path_member interned.ordered found]
          exact .member found (ih parent smaller (by omega))

theorem Known.spells_number {path : List String} (known : Known slots path)
    (interned : Interned slots) : Spells slots (number slots path) path := by
  have spelled := interned.spells_path (known.number_lt interned)
  rw [known.path_number interned] at spelled
  exact spelled

/-- Two known paths have the same number only if they are the same. -/
theorem Known.eq_of_number_eq {first second : List String} (knownFirst : Known slots first)
    (knownSecond : Known slots second) (interned : Interned slots)
    (same : number slots first = number slots second) : first = second := by
  rw [← knownFirst.path_number interned, same, knownSecond.path_number interned]

theorem getElem?_map_number_eq_iff {mentioned : List (List String)} (interned : Interned slots)
    (known : ∀ path ∈ mentioned, Known slots path) (first second : Nat) :
    (mentioned.map (number slots))[first]? = (mentioned.map (number slots))[second]? ↔
      mentioned[first]? = mentioned[second]? := by
  rw [List.getElem?_map, List.getElem?_map]
  constructor
  · intro same
    cases foundFirst : mentioned[first]? with
    | none =>
        cases foundSecond : mentioned[second]? with
        | none => rfl
        | some path => simp [foundFirst, foundSecond] at same
    | some path =>
        cases foundSecond : mentioned[second]? with
        | none => simp [foundFirst, foundSecond] at same
        | some other =>
            simp only [foundFirst, foundSecond, Option.map_some, Option.some.injEq] at same
            have knownFirst := known path (List.mem_of_getElem? foundFirst)
            have knownSecond := known other (List.mem_of_getElem? foundSecond)
            rw [knownFirst.eq_of_number_eq knownSecond interned same]
  · intro same
    rw [same]

/-- The paths of the slots of a table, in order. -/
def paths (slots : Array Slot) : List (List String) :=
  (List.range slots.size).map (path slots)

theorem mem_paths_iff {path : List String} : path ∈ paths slots ↔ Known slots path := by
  simp [paths, Known]

theorem paths_root : paths #[.root] = [[]] := by
  simp [paths, path]

/-- A path that is new stands behind all others. -/
theorem paths_push (interned : Interned slots) (inside : parent < slots.size)
    (fresh : ∀ slot : Nat, slots[slot]? ≠ some (.member parent key)) :
    paths (slots.push (.member parent key)) = paths slots ++ [path slots parent ++ [key]] := by
  have pushed := interned.push inside fresh
  have grown : Extends slots (slots.push (.member parent key)) := by
    intro slot definition found
    have old := (Array.getElem?_eq_some_iff.mp found).1
    rw [Array.getElem?_push, if_neg (by omega), found]
  rw [paths, Array.size_push, List.range_succ, List.map_append, List.map_singleton,
    path_member pushed.ordered Array.getElem?_push_size, grown.path_eq pushed.ordered inside, paths]
  congr 1
  apply List.map_congr_left
  intro slot isSlot
  exact grown.path_eq pushed.ordered (List.mem_range.mp isSlot)

/-- The slot of a member path is that member. -/
theorem Interned.getElem?_of_path (interned : Interned slots) (inside : parent < slots.size)
    {slot : Nat} (slotInside : slot < slots.size)
    (spelled : path slots slot = path slots parent ++ [key]) :
    slots[slot]? = some (.member parent key) := by
  have found := Array.getElem?_eq_getElem slotInside
  generalize slots[slot] = definition at found
  cases definition with
  | root =>
      rw [path_root found] at spelled
      simp at spelled
  | member other name =>
      rw [path_member interned.ordered found] at spelled
      have parts := List.append_inj' spelled rfl
      simp only [List.cons.injEq, and_true] at parts
      have smaller := interned.ordered slot other name found
      have sameParent := interned.path_injective (by omega) inside parts.1
      rw [found, sameParent, parts.2]

theorem eraseDups_concat (listed : List (List String)) (path : List String) :
    (listed ++ [path]).eraseDups =
      if path ∈ listed then listed.eraseDups else listed.eraseDups ++ [path] := by
  by_cases known : path ∈ listed
  · simp [List.eraseDups_append, List.removeAll, known]
  · simp [List.eraseDups_append, List.removeAll, known, List.eraseDups_cons]

/-- Interning a member mentions its path once more. -/
theorem paths_intern (interned : Interned slots) (inside : parent < slots.size)
    (numbered : paths slots = listed.eraseDups) (key : String) :
    paths (intern slots parent key).2 = (listed ++ [path slots parent ++ [key]]).eraseDups := by
  have mentioned : path slots parent ++ [key] ∈ listed ↔
      Known slots (path slots parent ++ [key]) := by
    rw [← mem_paths_iff, numbered, List.mem_eraseDups]
  rw [eraseDups_concat, ← numbered]
  rcases intern_cases slots parent key with ⟨slot, result, found⟩ | ⟨result, fresh⟩
  · have known : Known slots (path slots parent ++ [key]) :=
      ⟨slot, (Array.getElem?_eq_some_iff.mp found).1, path_member interned.ordered found⟩
    rw [result, if_pos (mentioned.mpr known)]
  · have unknown : ¬ Known slots (path slots parent ++ [key]) := by
      rintro ⟨slot, slotInside, same⟩
      exact fresh slot (interned.getElem?_of_path inside slotInside same)
    rw [result, if_neg (mt mentioned.mp unknown)]
    exact paths_push interned inside fresh

/-- Interning a path mentions its beginnings, the shortest first. -/
theorem paths_internPath (interned : Interned slots) (numbered : paths slots = listed.eraseDups)
    (keys : List String) :
    paths (internPath slots 0 keys).2 = (listed ++ keys.inits).eraseDups := by
  induction keys using List.reverseRecOn with
  | nil =>
      have known : [] ∈ listed := by
        rw [← List.mem_eraseDups, ← numbered, mem_paths_iff]
        exact known_nil interned
      rw [List.inits, eraseDups_concat, if_pos known]
      exact numbered
  | append_singleton keys key ih =>
      have located := locates_number interned keys
      have step := paths_intern located.interned located.inside ih key
      rw [located.path_eq] at step
      rw [internPath_append, List.inits_append, ← List.append_assoc]
      exact step

/-- The paths of a table are what has been mentioned, each path where it is mentioned first. -/
theorem paths_internPaths (interned : Interned slots) (numbered : paths slots = listed.eraseDups)
    (mentioned : List (List String)) :
    paths (internPaths slots mentioned) = (listed ++ mentioned.flatMap List.inits).eraseDups := by
  induction mentioned generalizing slots listed with
  | nil => rw [List.flatMap_nil, List.append_nil]; exact numbered
  | cons path rest ih =>
      have first := paths_internPath interned numbered path
      rw [List.flatMap_cons, ← List.append_assoc]
      exact ih (locates_number interned path).interned first

/-- Every slot of a table spells the path at its place. -/
theorem forall₂_spells_paths (interned : Interned slots) :
    List.Forall₂ (Spells slots) (List.range slots.size) (paths slots) := by
  rw [paths, List.forall₂_map_right_iff, List.forall₂_same]
  intro slot member
  exact interned.spells_path (List.mem_range.mp member)

end Check.Slot

end JsonShape
