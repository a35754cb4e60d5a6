import JsonShape.Schema.Validation

/-!
# Values without unknown members

`Field.prune` takes from a value the members that a field does not declare, at every object node
that meets an object, and leaves all else as it is. Where unknown members are ignored, a value is
judged as its pruned value is judged where they are rejected. A value is accepted there exactly if
it is accepted where they are ignored and there is nothing to prune.
-/

namespace JsonShape

namespace Field

mutual

/-- The value without the members that the field does not declare. -/
def prune : Field → Json → Json
  | .object members _, .object given => .object (pruneMembers members given)
  | _, value => value

/-- The declared members, each pruned by its field. -/
def pruneMembers (members : List (String × Field)) : List (String × Json) → List (String × Json)
  | [] => []
  | (name, value) :: rest =>
      match members.lookup name with
      | some field => (name, prune field value) :: pruneMembers members rest
      | none => pruneMembers members rest

end

variable {members : List (String × Field)} {flags : Flags} {given : List (String × Json)}

@[simp]
theorem prune_object (members : List (String × Field)) (flags : Flags)
    (given : List (String × Json)) :
    (object members flags).prune (.object given) = .object (pruneMembers members given) := rfl

theorem prune_leaf (type : LeafType) (flags : Flags) (value : Json) :
    (leaf type flags).prune value = value := by
  cases value <;> rfl

theorem mem_names_of_mem_names_pruneMembers {name : String}
    (kept : name ∈ Members.names (pruneMembers members given)) : name ∈ Members.names members := by
  induction given with
  | nil => cases kept
  | cons member rest ih =>
      obtain ⟨first, value⟩ := member
      cases found : members.lookup first with
      | none =>
          simp only [pruneMembers, found] at kept
          exact ih kept
      | some field =>
          simp only [pruneMembers, found, Members.names_cons, List.mem_cons] at kept
          rcases kept with rfl | later
          · exact Members.mem_names_of_mem (Members.mem_of_lookup found)
          · exact ih later

theorem lookup_pruneMembers {name : String} {field : Field}
    (declared : members.lookup name = some field) (given : List (String × Json)) :
    (pruneMembers members given).lookup name = (given.lookup name).map field.prune := by
  induction given with
  | nil => rfl
  | cons member rest ih =>
      obtain ⟨first, value⟩ := member
      by_cases same : name = first
      · subst same
        simp only [pruneMembers, declared, List.lookup_cons_self, Option.map_some]
      · have differ : (name == first) = false := beq_eq_false_iff_ne.mpr same
        rw [List.lookup_cons, differ, pruneMembers]
        cases members.lookup first with
        | none => exact ih
        | some other =>
            simp only [List.lookup_cons, differ]
            exact ih

theorem pruneMembers_eq_self
    (nothing : ∀ member ∈ given, ∃ field, members.lookup member.1 = some field ∧
      field.prune member.2 = member.2) : pruneMembers members given = given := by
  induction given with
  | nil => rfl
  | cons member rest ih =>
      obtain ⟨name, value⟩ := member
      rcases nothing (name, value) List.mem_cons_self with ⟨field, found, kept⟩
      have later := ih fun other isMember => nothing other (List.mem_cons_of_mem _ isMember)
      simp only [pruneMembers, found, kept, later]

/-- Rejecting unknown members finds none in a pruned value. -/
theorem accepts_reject_prune {field : Field} (wellFormed : field.WellFormed)
    (value : Option Json) :
    field.accepts .reject (value.map field.prune) = field.accepts .ignore value := by
  induction field using induct generalizing value with
  | leaf type flags =>
      cases value with
      | none => simp only [Option.map_none, accepts]
      | some value =>
          rw [Option.map_some, prune_leaf]
          cases value <;> simp only [accepts]
  | object members flags inside =>
      cases value with
      | none => simp only [Option.map_none, accepts]
      | some value =>
          cases value with
          | null | bool | number | string | array => simp only [Option.map_some, prune, accepts]
          | object given =>
              have pruned : ∀ member ∈ members,
                  member.2.accepts .reject ((pruneMembers members given).lookup member.1) =
                    member.2.accepts .ignore (given.lookup member.1) := by
                intro member isMember
                have declared := (Members.lookup_eq_some_iff_mem wellFormed.1).mpr isMember
                rw [lookup_pruneMembers declared]
                exact inside member isMember (wellFormedMembers_iff.mp wellFormed.2 _ isMember) _
              rw [Option.map_some, prune_object, Bool.eq_iff_iff, accepts_object_iff,
                accepts_object_iff]
              apply and_congr
              · apply forall₂_congr
                intro member isMember
                rw [pruned member isMember]
              · exact iff_of_true (fun _ _ kept => mem_names_of_mem_names_pruneMembers kept)
                  (by simp)

/-- There is nothing to prune in a value that is accepted where unknown members are rejected. -/
theorem prune_eq_self {field : Field} {value : Json} (wellFormed : value.WellFormed)
    (accepted : field.accepts .reject (some value) = true) : field.prune value = value := by
  induction field using induct generalizing value with
  | leaf type flags => exact prune_leaf type flags value
  | object members flags inside =>
      cases value with
      | null | bool | number | string | array => rfl
      | object given =>
          rcases accepts_object_iff.mp accepted with ⟨eachAccepted, known⟩
          rw [prune_object, pruneMembers_eq_self]
          rintro ⟨name, value⟩ isGiven
          rcases Members.exists_lookup_of_mem_names
            (known rfl name (Members.mem_names_of_mem isGiven)) with ⟨field, declared⟩
          have isMember := Members.mem_of_lookup declared
          have valueAccepted := eachAccepted (name, field) isMember
          rw [(Members.lookup_eq_some_iff_mem wellFormed.1).mpr isGiven] at valueAccepted
          have valueWellFormed := Json.wellFormedMembers_iff.mp wellFormed.2 _ isGiven
          exact ⟨field, declared, inside (name, field) isMember valueWellFormed valueAccepted⟩

/-- Ignoring unknown members is rejecting them in the pruned value, and rejecting them is asking
that there be nothing to prune. -/
theorem accepts_prune {field : Field} (wellFormed : field.WellFormed) {value : Option Json}
    (valueWellFormed : ∀ json ∈ value, json.WellFormed) :
    field.accepts .ignore value = field.accepts .reject (value.map field.prune) ∧
      (field.accepts .reject value = true ↔
        field.accepts .ignore value = true ∧ value.map field.prune = value) := by
  have lenient := accepts_reject_prune wellFormed value
  refine ⟨lenient.symm, ?_, ?_⟩
  · intro accepted
    have nothing : value.map field.prune = value := by
      cases value with
      | none => rfl
      | some json => exact congrArg some (prune_eq_self (valueWellFormed json rfl) accepted)
    refine ⟨?_, nothing⟩
    rw [← lenient, nothing]
    exact accepted
  · rintro ⟨accepted, nothing⟩
    rw [← lenient, nothing] at accepted
    exact accepted

/-- An unknown member below a declared one, beside values that no field looks into. -/
theorem accepts_prune_nested :
    let field : Field :=
      .object [("a", .object [("b", .number)] {}), ("c", nullable (.object [] {}))] {}
    let value : Json :=
      .object [("a", .object [("b", .number (.integer 1)), ("x", .object [])]), ("c", .null)]
    field.WellFormed ∧ value.WellFormed ∧
      field.prune value =
        .object [("a", .object [("b", .number (.integer 1))]), ("c", .null)] ∧
      field.accepts .ignore (some value) =
        field.accepts .reject ((some value).map field.prune) ∧
      (field.accepts .reject (some value) = true ↔
        field.accepts .ignore (some value) = true ∧ (some value).map field.prune = some value) := by
  intro field value
  have wellFormed : field.WellFormed := by
    simp [field, WellFormed, WellFormedMembers, number, nullable, withFlags]
  have valueWellFormed : value.WellFormed := by
    simp [value, Json.WellFormed, Json.WellFormedMembers]
  refine ⟨wellFormed, valueWellFormed, rfl, accepts_prune wellFormed ?_⟩
  rintro json ⟨⟩
  exact valueWellFormed

end Field

end JsonShape
