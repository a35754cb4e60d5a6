import JsonShape.Schema.Validation

/-!
# Samples of what a field accepts

Every field has a sample, a value that it accepts whichever way unknown members are treated, and
which has a member for each declared name. In any object that is accepted one member can be given
another value, or none (`Members.assign`). If the member is declared, its field alone then decides
about the object. If it is not declared and unknown members are ignored, nothing changes.
-/

namespace JsonShape

namespace Members

universe u

variable {Value : Type u} {name other : String} {members : List (String × Value)}

/-- The members, where a name has a given value, or no value. -/
def assign (name : String) (value : Option Value) (members : List (String × Value)) :
    List (String × Value) :=
  match value with
  | some value => put name value members
  | none => members.filter fun member => member.1 ≠ name

theorem lookup_filter_ne (name other : String) (members : List (String × Value)) :
    (members.filter fun member => member.1 ≠ name).lookup other =
      if other = name then none else members.lookup other := by
  induction members with
  | nil => simp
  | cons member rest ih =>
      obtain ⟨first, value⟩ := member
      by_cases same : first = name
      · rw [List.filter_cons_of_neg (by simp [same]), ih, List.lookup_cons]
        subst same
        by_cases sought : other = first
        · simp [sought]
        · simp [sought, beq_eq_false_iff_ne.mpr sought]
      · rw [List.filter_cons_of_pos (by simp [same]), List.lookup_cons, List.lookup_cons, ih]
        by_cases sought : other = first
        · subst sought
          simp [same]
        · simp [beq_eq_false_iff_ne.mpr sought]

theorem lookup_assign (name other : String) (value : Option Value)
    (members : List (String × Value)) :
    (assign name value members).lookup other =
      if other = name then value else members.lookup other := by
  cases value with
  | none => exact lookup_filter_ne name other members
  | some value => exact lookup_put name other value members

theorem mem_names_of_mem_names_assign {value : Option Value}
    (member : other ∈ names (assign name value members)) :
    other = name ∨ other ∈ names members := by
  cases value with
  | none =>
      rcases List.mem_map.mp member with ⟨kept, inside, rfl⟩
      exact .inr (List.mem_map_of_mem (List.mem_filter.mp inside).1)
  | some value => exact mem_names_put.mp member

theorem names_assign_nodup {value : Option Value} (distinct : (names members).Nodup) :
    (names (assign name value members)).Nodup := by
  cases value with
  | none => exact distinct.sublist (List.filter_sublist.map Prod.fst)
  | some value => exact names_put_nodup distinct

theorem mem_put {value : Value} {member : String × Value}
    (inside : member ∈ put name value members) : member = (name, value) ∨ member ∈ members := by
  induction members with
  | nil => exact .inl (List.mem_singleton.mp inside)
  | cons first rest ih =>
      rw [put] at inside
      split at inside
      · rcases List.mem_cons.mp inside with assigned | later
        · exact .inl assigned
        · exact .inr (List.mem_cons_of_mem _ later)
      · rcases List.mem_cons.mp inside with rfl | later
        · exact .inr List.mem_cons_self
        · rcases ih later with assigned | kept
          · exact .inl assigned
          · exact .inr (List.mem_cons_of_mem _ kept)

theorem mem_assign {value : Option Value} {member : String × Value}
    (inside : member ∈ assign name value members) : member.2 ∈ value ∨ member ∈ members := by
  cases value with
  | none => exact .inr (List.mem_filter.mp inside).1
  | some value =>
      rcases mem_put inside with rfl | kept
      · exact .inl rfl
      · exact .inr kept

end Members

namespace Json

theorem wellFormed_assign {given : List (String × Json)} {name : String} {value : Option Json}
    (wellFormed : (object given).WellFormed) (valueWellFormed : ∀ json ∈ value, json.WellFormed) :
    (object (Members.assign name value given)).WellFormed := by
  refine ⟨Members.names_assign_nodup wellFormed.1, ?_⟩
  apply wellFormedMembers_iff.mpr
  intro member isMember
  rcases Members.mem_assign isMember with assigned | before
  · exact valueWellFormed member.2 assigned
  · exact wellFormedMembers_iff.mp wellFormed.2 member before

end Json

namespace Field

mutual

/-- A value that the field accepts, with a member for each declared name. -/
def sample : Field → Json
  | .leaf .string _ => .string ""
  | .leaf .number _ => .number (.integer 0)
  | .object members _ => .object (sampleMembers members)

def sampleMembers : List (String × Field) → List (String × Json)
  | [] => []
  | (name, field) :: rest => (name, sample field) :: sampleMembers rest

end

section Sample

variable {mode : UnknownKeys} {members : List (String × Field)} {flags : Flags}

theorem sampleMembers_eq_map (members : List (String × Field)) :
    sampleMembers members = members.map fun member => (member.1, member.2.sample) := by
  induction members with
  | nil => rfl
  | cons member rest ih => rw [sampleMembers, ih, List.map_cons]

@[simp]
theorem names_sampleMembers (members : List (String × Field)) :
    Members.names (sampleMembers members) = Members.names members := by
  rw [sampleMembers_eq_map, Members.names, List.map_map]
  rfl

theorem sample_ne_null (field : Field) : field.sample ≠ .null := by
  cases field with
  | leaf type flags => cases type <;> simp [sample]
  | object members flags => simp [sample]

theorem wellFormed_sample {field : Field} (wellFormed : field.WellFormed) :
    field.sample.WellFormed := by
  induction field using induct with
  | leaf type flags => cases type <;> trivial
  | object members flags inside =>
      refine ⟨by simpa using wellFormed.1, ?_⟩
      apply Json.wellFormedMembers_iff.mpr
      rw [sampleMembers_eq_map]
      intro member isMember
      rcases List.mem_map.mp isMember with ⟨declared, isDeclared, rfl⟩
      exact inside declared isDeclared (wellFormedMembers_iff.mp wellFormed.2 _ isDeclared)

theorem accepts_sample (mode : UnknownKeys) {field : Field} (wellFormed : field.WellFormed) :
    field.accepts mode (some field.sample) = true := by
  induction field using induct with
  | leaf type flags =>
      cases type with
      | string | number => simp [sample, accepts, LeafType.kind, Json.Kind.includes]
  | object members flags inside =>
      rw [sample, accepts_object_iff, names_sampleMembers]
      refine ⟨?_, fun _ name declared => declared⟩
      intro member isMember
      have found := (Members.lookup_eq_some_iff_mem wellFormed.1).mpr isMember
      rw [sampleMembers_eq_map, Members.lookup_map, found]
      exact inside member isMember (wellFormedMembers_iff.mp wellFormed.2 _ isMember)

/-- In an object that is accepted, another value of one declared member is judged by its field. -/
theorem accepts_assign (distinct : (Members.names members).Nodup) {name : String} {field : Field}
    (declared : members.lookup name = some field) {given : List (String × Json)}
    (accepted : (object members flags).accepts mode (some (.object given)) = true)
    (value : Option Json) :
    (object members flags).accepts mode (some (.object (Members.assign name value given))) =
      field.accepts mode value := by
  rcases accepts_object_iff.mp accepted with ⟨eachAccepted, known⟩
  rw [Bool.eq_iff_iff, accepts_object_iff]
  constructor
  · rintro ⟨assignedAccepted, -⟩
    have here := assignedAccepted (name, field) (Members.mem_of_lookup declared)
    rwa [Members.lookup_assign, if_pos rfl] at here
  · intro valueAccepted
    refine ⟨?_, ?_⟩
    · rintro ⟨other, otherField⟩ isMember
      rw [Members.lookup_assign]
      by_cases same : other = name
      · subst same
        rw [(Members.lookup_eq_some_iff_mem distinct).mpr isMember] at declared
        cases declared
        rwa [if_pos rfl]
      · rw [if_neg same]
        exact eachAccepted (other, otherField) isMember
    · intro rejecting other isMember
      rcases Members.mem_names_of_mem_names_assign isMember with rfl | before
      · exact Members.mem_names_of_mem (Members.mem_of_lookup declared)
      · exact known rejecting other before

/-- If unknown members are ignored, a member that is not declared may have any value. -/
theorem accepts_assign_unknown {name : String} (unknown : name ∉ Members.names members)
    {given : List (String × Json)}
    (accepted : (object members flags).accepts .ignore (some (.object given)) = true)
    (value : Option Json) :
    (object members flags).accepts .ignore (some (.object (Members.assign name value given))) =
      true := by
  rcases accepts_object_iff.mp accepted with ⟨eachAccepted, -⟩
  refine accepts_object_iff.mpr ⟨?_, nofun⟩
  rintro ⟨other, field⟩ isMember
  have differ : other ≠ name := by
    rintro rfl
    exact unknown (Members.mem_names_of_mem isMember)
  rw [Members.lookup_assign, if_neg differ]
  exact eachAccepted (other, field) isMember

/-- No field accepts a truth value. -/
theorem accepts_bool (mode : UnknownKeys) (field : Field) (value : Bool) :
    field.accepts mode (some (.bool value)) = false := by
  apply Bool.eq_false_iff.mpr
  intro accepted
  have included := includes_of_accepts accepted (by simp)
  cases kind : field.kind <;> rw [kind] at included <;> cases included

end Sample

end Field

end JsonShape
