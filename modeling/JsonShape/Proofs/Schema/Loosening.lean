import JsonShape.Schema.Validation

/-!
# Loosened schemas

A field can be loosened by setting flags, at any of its nodes, and by a change of the names that its
object nodes declare. Where unknown members are ignored, a declaration only asks for something, so
it may be dropped. Where they are rejected, a declaration is also what admits its member, so none
may be dropped, and a new one must be optional.

Whatever a field accepts is accepted by every loosened field (`Field.accepts_of_loosened`).
-/

namespace JsonShape

/-- The second flags are set where the first are. -/
structure Flags.Within (flags others : Flags) : Prop where
  nullable : flags.nullable = true → others.nullable = true
  optional : flags.optional = true → others.optional = true

theorem Flags.Within.refl (flags : Flags) : flags.Within flags :=
  ⟨id, id⟩

/-- Whether an object node that declares the first members may be loosened to declare the second
ones instead. -/
def UnknownKeys.Redeclares (mode : UnknownKeys) (members others : List (String × Field)) : Prop :=
  match mode with
  | .ignore => ∀ name ∈ Members.names others, name ∈ Members.names members
  | .reject =>
      (∀ name ∈ Members.names members, name ∈ Members.names others) ∧
        ∀ name field, others.lookup name = some field → name ∉ Members.names members →
          field.flags.optional = true

theorem UnknownKeys.redeclares_of_same_names {mode : UnknownKeys}
    {members others : List (String × Field)}
    (same : ∀ name, name ∈ Members.names members ↔ name ∈ Members.names others) :
    mode.Redeclares members others := by
  cases mode with
  | ignore => exact fun name => (same name).mpr
  | reject =>
      refine ⟨fun name => (same name).mp, ?_⟩
      intro name field found unknown
      have declared := Members.mem_names_of_mem (Members.mem_of_lookup found)
      exact absurd ((same name).mpr declared) unknown

namespace Field

/-- The second field is the first, loosened: it has the same type, its flags are set where those of
the first are, its object nodes redeclare names as the mode allows, and a field that both declare
under one name is loosened in turn. -/
inductive Loosened (mode : UnknownKeys) : Field → Field → Prop
  | leaf {type : LeafType} {flags otherFlags : Flags} (kept : flags.Within otherFlags) :
      Loosened mode (.leaf type flags) (.leaf type otherFlags)
  | object {members others : List (String × Field)} {flags otherFlags : Flags}
      (kept : flags.Within otherFlags) (redeclares : mode.Redeclares members others)
      (inside : ∀ name first second, members.lookup name = some first →
        others.lookup name = some second → Loosened mode first second) :
      Loosened mode (.object members flags) (.object others otherFlags)

/-- The second field is the first with one node, itself or any inside it, made nullable or optional.
-/
inductive Relaxed : Field → Field → Prop
  | nullable (field : Field) : Relaxed field field.nullable
  | optional (field : Field) : Relaxed field field.optional
  | inside {before after : List (String × Field)} {name : String} {first second : Field}
      {flags : Flags} (relaxed : Relaxed first second) :
      Relaxed (.object (before ++ (name, first) :: after) flags)
        (.object (before ++ (name, second) :: after) flags)

variable {mode : UnknownKeys} {first second : Field}

theorem Loosened.withFlags (field : Field) {flags : Flags} (kept : field.flags.Within flags) :
    Loosened mode field (field.withFlags flags) := by
  induction field using induct generalizing flags with
  | leaf type old => exact .leaf kept
  | object members old inside =>
      refine .object kept (UnknownKeys.redeclares_of_same_names fun _ => Iff.rfl) ?_
      intro name first second found otherFound
      rw [found] at otherFound
      cases otherFound
      have unchanged := inside (name, first) (Members.mem_of_lookup found) (.refl first.flags)
      cases first <;> exact unchanged

theorem Loosened.refl (mode : UnknownKeys) (field : Field) : Loosened mode field field := by
  have unchanged : Loosened mode field (field.withFlags field.flags) :=
    .withFlags field (.refl field.flags)
  cases field <;> exact unchanged

/-- Making a node nullable or optional loosens the field. -/
theorem Relaxed.loosened (relaxed : first.Relaxed second) (mode : UnknownKeys) :
    Loosened mode first second := by
  induction relaxed with
  | nullable field => exact .withFlags field ⟨fun _ => rfl, id⟩
  | optional field => exact .withFlags field ⟨id, fun _ => rfl⟩
  | @inside before after name first second flags relaxed ih =>
      refine .object (.refl flags) (UnknownKeys.redeclares_of_same_names ?_) ?_
      · simp [Members.names]
      · intro other inFirst inSecond found otherFound
        rw [List.lookup_append] at found otherFound
        cases earlier : before.lookup other with
        | some field =>
            rw [earlier, Option.some_or, Option.some.injEq] at found otherFound
            rw [← found, ← otherFound]
            exact .refl mode field
        | none =>
            rw [earlier, Option.none_or, List.lookup_cons] at found otherFound
            cases same : other == name with
            | true =>
                rw [same] at found otherFound
                cases found
                cases otherFound
                exact ih
            | false =>
                rw [same] at found otherFound
                rw [found] at otherFound
                cases otherFound
                exact .refl mode inFirst

/-- What an object node accepts is accepted where names are redeclared and each field that both
declare under one name accepts as much. -/
theorem accepts_object_of_redeclares {members others : List (String × Field)}
    {flags otherFlags : Flags} {given : List (String × Json)}
    (distinct : (Members.names others).Nodup) (redeclares : mode.Redeclares members others)
    (inside : ∀ name first second, members.lookup name = some first →
      others.lookup name = some second →
        first.accepts mode (given.lookup name) = true →
          second.accepts mode (given.lookup name) = true)
    (accepted : (object members flags).accepts mode (some (.object given)) = true) :
    (object others otherFlags).accepts mode (some (.object given)) = true := by
  rcases accepts_object_iff.mp accepted with ⟨eachAccepted, known⟩
  refine accepts_object_iff.mpr ⟨?_, ?_⟩
  · rintro ⟨name, second⟩ declared
    have otherFound := (Members.lookup_eq_some_iff_mem distinct).mpr declared
    by_cases before : name ∈ Members.names members
    · rcases Members.exists_lookup_of_mem_names before with ⟨first, found⟩
      exact inside name first second found otherFound
        (eachAccepted (name, first) (Members.mem_of_lookup found))
    · cases mode with
      | ignore => exact absurd (redeclares name (Members.mem_names_of_mem declared)) before
      | reject =>
          -- The name was not declared, so the object has no such member.
          have missing : given.lookup name = none :=
            Members.lookup_eq_none_iff_not_mem.mpr fun isGiven => before (known rfl name isGiven)
          rw [missing, accepts_none]
          exact redeclares.2 name second otherFound before
  · rintro rfl name isGiven
    exact redeclares.1 name (known rfl name isGiven)

theorem Loosened.accepts (loosened : Loosened mode first second) (wellFormed : second.WellFormed)
    (value : Option Json) (accepted : first.accepts mode value = true) :
    second.accepts mode value = true := by
  induction loosened generalizing value with
  | leaf kept =>
      cases value with
      | none => exact kept.optional accepted
      | some value =>
          cases value with
          | null => exact kept.nullable accepted
          | bool | number | string | array | object => exact accepted
  | object kept redeclares inside ih =>
      cases value with
      | none => exact kept.optional accepted
      | some value =>
          cases value with
          | null => exact kept.nullable accepted
          | bool | number | string | array => exact accepted
          | object given =>
              refine accepts_object_of_redeclares wellFormed.1 redeclares ?_ accepted
              intro name first second found otherFound
              have member := Members.mem_of_lookup otherFound
              exact ih name first second found otherFound
                (wellFormedMembers_iff.mp wellFormed.2 _ member) (given.lookup name)

/-- Whatever a field accepts is accepted by the loosened field. In particular nothing is rejected
any more because a node somewhere inside is made nullable or optional. -/
theorem accepts_of_loosened (wellFormed : second.WellFormed) :
    (Loosened mode first second → ∀ value : Option Json,
      first.accepts mode value = true → second.accepts mode value = true) ∧
    (Relaxed first second → ∀ value : Option Json,
      first.accepts mode value = true → second.accepts mode value = true) := by
  constructor
  · intro loosened value
    exact loosened.accepts wellFormed value
  · intro relaxed value
    exact (relaxed.loosened mode).accepts wellFormed value

/-- Unknown members are rejected; below a declared name another name is declared and a number may be
`null`, beside an order of declaration that has changed. -/
theorem accepts_of_loosened_nested :
    let first : Field := .object [("a", .string), ("b", .object [("c", .number)] {})] {}
    let second : Field :=
      .object [("b", .object [("c", nullable .number), ("d", optional .string)] {}), ("a", .string)]
        { nullable := true }
    let third : Field := .object [("a", .string), ("b", .object [("c", nullable .number)] {})] {}
    second.WellFormed ∧ third.WellFormed ∧ Loosened .reject first second ∧ Relaxed first third ∧
      (∀ value : Option Json,
        first.accepts .reject value = true → second.accepts .reject value = true) ∧
      ∀ value : Option Json,
        first.accepts .reject value = true → third.accepts .reject value = true := by
  intro first second third
  have wellFormed : second.WellFormed := by
    simp [second, WellFormed, WellFormedMembers, string, number, nullable, optional, withFlags]
  have thirdWellFormed : third.WellFormed := by
    simp [third, WellFormed, WellFormedMembers, string, number, nullable, withFlags]
  have number : Loosened .reject .number (nullable .number) := .withFlags .number ⟨fun _ => rfl, id⟩
  have below : Loosened .reject (.object [("c", .number)] {})
      (.object [("c", nullable .number), ("d", optional .string)] {}) := by
    refine .object (.refl {}) ⟨by simp, ?_⟩ ?_
    · intro name field found unknown
      rcases List.mem_cons.mp (Members.mem_of_lookup found) with same | later
      · cases same
        simp at unknown
      · cases List.mem_singleton.mp later
        rfl
    · intro name inFirst inSecond found otherFound
      cases List.mem_singleton.mp (Members.mem_of_lookup found)
      cases otherFound
      exact number
  have loosened : Loosened .reject first second := by
    refine .object ⟨fun _ => rfl, id⟩ (UnknownKeys.redeclares_of_same_names ?_) ?_
    · simp [or_comm]
    · intro name inFirst inSecond found otherFound
      rcases List.mem_cons.mp (Members.mem_of_lookup found) with same | later
      · cases same
        cases otherFound
        exact .refl .reject .string
      · cases List.mem_singleton.mp later
        cases otherFound
        exact below
  have relaxed : Relaxed first third :=
    @Relaxed.inside [("a", .string)] [] "b" _ _ {}
      (@Relaxed.inside [] [] "c" _ _ {} (.nullable .number))
  exact ⟨wellFormed, thirdWellFormed, loosened, relaxed,
    (accepts_of_loosened wellFormed).1 loosened, (accepts_of_loosened thirdWellFormed).2 relaxed⟩

end Field

end JsonShape
