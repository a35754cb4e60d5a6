import Mathlib.Data.List.Perm.Subperm
import JsonShape.Proofs.Schema.Loosening
import JsonShape.Proofs.Schema.Samples

/-!
# Equal schemas accept the same values

Two fields are equal exactly if no value tells them apart, whichever way unknown members are
treated.

Equal fields have the same names with equal fields below them, and acceptance asks for nothing
else, so the order of declaration does not matter. For the other direction, two fields that agree on
all values both accept the sample of the first. Giving one member of the sample another value then
asks for what the fields below that name say about this value. A name that only one of the two
declares is found with a member that no field accepts if unknown members are ignored, and with the
sample itself if they are rejected.
-/

namespace JsonShape

namespace Field

/-! ### Equal fields -/

section Equal

variable {members others : List (String × Field)} {flags otherFlags : Flags}

theorem equalMembers_iff :
    equalMembers members others = true ↔
      ∀ member ∈ members, ∃ field, others.lookup member.1 = some field ∧
        member.2.equal field = true := by
  induction members with
  | nil => simp [equalMembers]
  | cons member rest ih =>
      obtain ⟨name, first⟩ := member
      rw [equalMembers, Bool.and_eq_true, ih, List.forall_mem_cons]
      cases others.lookup name <;> simp

/-- Equal object nodes have the same flags and equal fields under the same names. -/
theorem equal_object_iff (distinct : (Members.names members).Nodup)
    (othersDistinct : (Members.names others).Nodup) :
    (object members flags).equal (object others otherFlags) = true ↔
      flags = otherFlags ∧
        (∀ name, name ∈ Members.names members ↔ name ∈ Members.names others) ∧
          ∀ name first second, members.lookup name = some first →
            others.lookup name = some second → first.equal second = true := by
  rw [equal, Bool.and_eq_true, Bool.and_eq_true, decide_eq_true_eq, decide_eq_true_eq,
    equalMembers_iff, and_assoc]
  apply and_congr_right
  rintro rfl
  constructor
  · rintro ⟨sameLength, equalFields⟩
    have included : Members.names members ⊆ Members.names others := by
      intro name declared
      rcases List.mem_map.mp declared with ⟨member, inside, rfl⟩
      rcases equalFields member inside with ⟨field, found, -⟩
      exact Members.mem_names_of_mem (Members.mem_of_lookup found)
    have bounded : (Members.names others).length ≤ (Members.names members).length := by
      simp [Members.names, sameLength]
    have reordered := (distinct.subperm included).perm_of_length_le bounded
    refine ⟨fun name => reordered.mem_iff, ?_⟩
    intro name first second found otherFound
    rcases equalFields (name, first) (Members.mem_of_lookup found) with ⟨field, same, isEqual⟩
    rw [otherFound] at same
    cases same
    exact isEqual
  · rintro ⟨sameNames, equalFields⟩
    have reordered := (List.perm_ext_iff_of_nodup distinct othersDistinct).mpr sameNames
    refine ⟨by simpa [Members.names] using reordered.length_eq, ?_⟩
    intro member inside
    have found := (Members.lookup_eq_some_iff_mem distinct).mpr inside
    rcases Members.exists_lookup_of_mem_names
      ((sameNames member.1).mp (Members.mem_names_of_mem inside)) with ⟨field, otherFound⟩
    exact ⟨field, otherFound, equalFields member.1 member.2 field found otherFound⟩

/-- Object nodes with the same flags agree on all values if they agree on all objects. -/
theorem accepts_object_congr {mode : UnknownKeys}
    (same : ∀ given, (object members flags).accepts mode (some (.object given)) = true ↔
      (object others flags).accepts mode (some (.object given)) = true) (value : Option Json) :
    (object members flags).accepts mode value = (object others flags).accepts mode value := by
  cases value with
  | none => simp only [accepts]
  | some value =>
      cases value with
      | object given => exact Bool.eq_iff_iff.mpr (same given)
      | null | bool | number | string | array => simp only [accepts]

theorem accepts_eq_of_equal (mode : UnknownKeys) {first : Field} (wellFormed : first.WellFormed)
    {second : Field} (otherWellFormed : second.WellFormed) (isEqual : first.equal second = true)
    (value : Option Json) : first.accepts mode value = second.accepts mode value := by
  induction first using induct generalizing second value with
  | leaf type flags =>
      cases second with
      | leaf otherType otherFlags =>
          simp only [equal, Bool.and_eq_true, decide_eq_true_eq] at isEqual
          rw [isEqual.1, isEqual.2]
      | object others otherFlags => cases isEqual
  | object members flags inside =>
      cases second with
      | leaf otherType otherFlags => cases isEqual
      | object others otherFlags =>
          rcases (equal_object_iff wellFormed.1 otherWellFormed.1).mp isEqual with
            ⟨rfl, sameNames, equalFields⟩
          have below : ∀ name first second, members.lookup name = some first →
              others.lookup name = some second → ∀ value : Option Json,
                first.accepts mode value = second.accepts mode value := by
            intro name first second found otherFound
            have member := Members.mem_of_lookup found
            exact inside (name, first) member (wellFormedMembers_iff.mp wellFormed.2 _ member)
              (wellFormedMembers_iff.mp otherWellFormed.2 _ (Members.mem_of_lookup otherFound))
              (equalFields name first second found otherFound)
          apply accepts_object_congr
          intro given
          constructor
          · apply accepts_object_of_redeclares otherWellFormed.1
              (UnknownKeys.redeclares_of_same_names sameNames)
            intro name first second found otherFound accepted
            rwa [← below name first second found otherFound]
          · apply accepts_object_of_redeclares wellFormed.1
              (UnknownKeys.redeclares_of_same_names fun name => (sameNames name).symm)
            intro name second first otherFound found accepted
            rwa [below name first second found otherFound]

end Equal

/-! ### Fields that agree -/

/-- No value, and no absence of one, tells the fields apart. -/
def Agree (mode : UnknownKeys) (first second : Field) : Prop :=
  ∀ value : Option Json, (∀ json ∈ value, json.WellFormed) →
    first.accepts mode value = second.accepts mode value

namespace Agree

variable {mode : UnknownKeys} {first second : Field} {members others : List (String × Field)}
  {flags otherFlags : Flags}

theorem symm (agree : Agree mode first second) : Agree mode second first :=
  fun value wellFormed => (agree value wellFormed).symm

theorem flags_eq (agree : Agree mode first second) : first.flags = second.flags := by
  have absent := agree none (by simp)
  rw [accepts_none, accepts_none] at absent
  have null := agree (some .null) (by simp [Json.WellFormed])
  rw [accepts_null, accepts_null] at null
  cases firstFlags : first.flags
  cases secondFlags : second.flags
  simp_all

theorem accepts_sample (agree : Agree mode first second) (wellFormed : first.WellFormed) :
    second.accepts mode (some first.sample) = true := by
  have sampleWellFormed : ∀ json ∈ some first.sample, json.WellFormed := by
    rintro json ⟨⟩
    exact wellFormed_sample wellFormed
  rw [← agree (some first.sample) sampleWellFormed]
  exact Field.accepts_sample mode wellFormed

theorem kind_eq (agree : Agree mode first second) (wellFormed : first.WellFormed) :
    first.kind = second.kind := by
  have inFirst := includes_of_accepts (Field.accepts_sample mode wellFormed) first.sample_ne_null
  have inSecond := includes_of_accepts (agree.accepts_sample wellFormed) first.sample_ne_null
  exact Json.Kind.eq_of_includes inFirst inSecond

/-- Giving one member of the sample of the first field any value does not tell the fields apart. -/
theorem accepts_assign_sample
    (agree : Agree mode (object members flags) (object others otherFlags))
    (wellFormed : (object members flags).WellFormed) (name : String) (value : Option Json)
    (valueWellFormed : ∀ json ∈ value, json.WellFormed) :
    (object members flags).accepts mode
        (some (.object (Members.assign name value (sampleMembers members)))) =
      (object others otherFlags).accepts mode
        (some (.object (Members.assign name value (sampleMembers members)))) := by
  apply agree
  rintro json ⟨⟩
  exact Json.wellFormed_assign (wellFormed_sample wellFormed) valueWellFormed

theorem mem_names (agree : Agree mode (object members flags) (object others otherFlags))
    (wellFormed : (object members flags).WellFormed) {name : String}
    (declared : name ∈ Members.names members) : name ∈ Members.names others := by
  by_contra unknown
  have accepted := Field.accepts_sample mode wellFormed
  have otherAccepted := agree.accepts_sample wellFormed
  cases mode with
  | ignore =>
      rcases Members.exists_lookup_of_mem_names declared with ⟨field, found⟩
      have same := agree.accepts_assign_sample wellFormed name (some (.bool true))
        (by simp [Json.WellFormed])
      rw [accepts_assign wellFormed.1 found accepted, accepts_bool,
        accepts_assign_unknown unknown otherAccepted] at same
      cases same
  | reject =>
      have known := (accepts_object_iff.mp otherAccepted).2 rfl name
      rw [names_sampleMembers] at known
      exact unknown (known declared)

theorem inside (agree : Agree mode (object members flags) (object others otherFlags))
    (wellFormed : (object members flags).WellFormed)
    (otherWellFormed : (object others otherFlags).WellFormed) {name : String}
    (found : members.lookup name = some first) (otherFound : others.lookup name = some second) :
    Agree mode first second := by
  intro value valueWellFormed
  have same := agree.accepts_assign_sample wellFormed name value valueWellFormed
  rwa [accepts_assign wellFormed.1 found (Field.accepts_sample mode wellFormed),
    accepts_assign otherWellFormed.1 otherFound (agree.accepts_sample wellFormed)] at same

theorem equal (agree : Agree mode first second) (wellFormed : first.WellFormed)
    (otherWellFormed : second.WellFormed) : first.equal second = true := by
  have sameFlags := agree.flags_eq
  have sameKind := agree.kind_eq wellFormed
  induction first using induct generalizing second with
  | leaf type flags =>
      cases second with
      | leaf otherType otherFlags =>
          cases sameFlags
          cases LeafType.eq_of_kind_eq sameKind
          simp [Field.equal]
      | object others otherFlags => cases type <;> cases sameKind
  | object members flags fields =>
      cases second with
      | leaf otherType otherFlags => cases otherType <;> cases sameKind
      | object others otherFlags =>
          refine (equal_object_iff wellFormed.1 otherWellFormed.1).mpr ⟨sameFlags, ?_, ?_⟩
          · intro name
            exact ⟨agree.mem_names wellFormed, agree.symm.mem_names otherWellFormed⟩
          · intro name first second found otherFound
            have member := Members.mem_of_lookup found
            have below := agree.inside wellFormed otherWellFormed found otherFound
            have belowWellFormed := wellFormedMembers_iff.mp wellFormed.2 _ member
            exact fields (name, first) member below belowWellFormed
              (wellFormedMembers_iff.mp otherWellFormed.2 _ (Members.mem_of_lookup otherFound))
              below.flags_eq (below.kind_eq belowWellFormed)

end Agree

/-! ### Order and differences -/

/-- The second field is the first with declarations in another order, at any of its nodes. -/
inductive Reordered : Field → Field → Prop
  | refl (field : Field) : Reordered field field
  | node {members others : List (String × Field)} {flags : Flags}
      (reordered : members.Perm others) :
      Reordered (.object members flags) (.object others flags)
  | inside {before after : List (String × Field)} {name : String} {first second : Field}
      {flags : Flags} (reordered : Reordered first second) :
      Reordered (.object (before ++ (name, first) :: after) flags)
        (.object (before ++ (name, second) :: after) flags)
  | trans {first second third : Field} (left : Reordered first second)
      (right : Reordered second third) : Reordered first third

theorem Reordered.accepts_eq {first second : Field} (reordered : first.Reordered second)
    (mode : UnknownKeys) (value : Option Json) :
    first.accepts mode value = second.accepts mode value := by
  induction reordered generalizing value with
  | refl field => rfl
  | @node members others flags reordered =>
      apply accepts_object_congr
      intro given
      rw [accepts_object_iff, accepts_object_iff]
      have sameNames : (Members.names members).Perm (Members.names others) := reordered.map Prod.fst
      simp only [reordered.mem_iff, sameNames.mem_iff]
  | @inside before after name first second flags reordered ih =>
      apply accepts_object_congr
      intro given
      rw [accepts_object_iff, accepts_object_iff]
      simp only [List.forall_mem_append, List.forall_mem_cons, ih, Members.names, List.map_append,
        List.map_cons]
  | trans left right ihLeft ihRight => exact (ihLeft value).trans (ihRight value)

/-- The fields differ in a flag, in their kind or in a declared name, here or below a name that both
declare. -/
inductive Differs : Field → Field → Prop
  | flags {first second : Field} (different : first.flags ≠ second.flags) : Differs first second
  | kind {first second : Field} (different : first.kind ≠ second.kind) : Differs first second
  | name {members others : List (String × Field)} {flags otherFlags : Flags} {name : String}
      (different : ¬(name ∈ Members.names members ↔ name ∈ Members.names others)) :
      Differs (.object members flags) (.object others otherFlags)
  | inside {members others : List (String × Field)} {flags otherFlags : Flags} {name : String}
      {first second : Field} (found : members.lookup name = some first)
      (otherFound : others.lookup name = some second) (differs : Differs first second) :
      Differs (.object members flags) (.object others otherFlags)

theorem Differs.not_agree {first second : Field} (differs : first.Differs second)
    (wellFormed : first.WellFormed) (otherWellFormed : second.WellFormed) (mode : UnknownKeys) :
    ¬Agree mode first second := by
  intro agree
  induction differs with
  | flags different => exact different agree.flags_eq
  | kind different => exact different (agree.kind_eq wellFormed)
  | name different =>
      exact different ⟨agree.mem_names wellFormed, agree.symm.mem_names otherWellFormed⟩
  | inside found otherFound differs ih =>
      have member := Members.mem_of_lookup found
      have otherMember := Members.mem_of_lookup otherFound
      exact ih (wellFormedMembers_iff.mp wellFormed.2 _ member)
        (wellFormedMembers_iff.mp otherWellFormed.2 _ otherMember)
        (agree.inside wellFormed otherWellFormed found otherFound)

/-- Fields are equal exactly if they accept the same values. In particular the order of declaration
does not matter, and fields that differ anywhere are told apart by some value. -/
theorem equal_iff_accepts_eq (mode : UnknownKeys) {first second : Field}
    (wellFormed : first.WellFormed) (otherWellFormed : second.WellFormed) :
    (first.equal second = true ↔ ∀ value : Option Json, (∀ json ∈ value, json.WellFormed) →
      first.accepts mode value = second.accepts mode value) ∧
    (first.Reordered second → ∀ value : Option Json,
      first.accepts mode value = second.accepts mode value) ∧
    (first.Differs second → ∃ value : Option Json, (∀ json ∈ value, json.WellFormed) ∧
      first.accepts mode value ≠ second.accepts mode value) := by
  refine ⟨⟨?_, ?_⟩, ?_, ?_⟩
  · intro isEqual value _
    exact accepts_eq_of_equal mode wellFormed otherWellFormed isEqual value
  · intro agree
    exact Agree.equal agree wellFormed otherWellFormed
  · intro reordered value
    exact reordered.accepts_eq mode value
  · intro differs
    have apart := differs.not_agree wellFormed otherWellFormed mode
    simpa only [Agree, not_forall, exists_prop] using apart

/-- Two fields that declare the same names in another order and differ in one flag below them. -/
theorem equal_iff_accepts_eq_nested :
    let first : Field :=
      .object [("a", .string), ("b", .object [("c", .number), ("d", .string)] {})] {}
    let second : Field :=
      .object [("b", .object [("d", .string), ("c", nullable .number)] {}), ("a", .string)] {}
    first.WellFormed ∧ second.WellFormed ∧ first.Differs second ∧
      (first.equal second = true ↔ ∀ value : Option Json, (∀ json ∈ value, json.WellFormed) →
        first.accepts .reject value = second.accepts .reject value) ∧
      (first.Reordered second → ∀ value : Option Json,
        first.accepts .reject value = second.accepts .reject value) ∧
      ∃ value : Option Json, (∀ json ∈ value, json.WellFormed) ∧
        first.accepts .reject value ≠ second.accepts .reject value := by
  intro first second
  have wellFormed : first.WellFormed := by
    simp [first, WellFormed, WellFormedMembers, string, number]
  have otherWellFormed : second.WellFormed := by
    simp [second, WellFormed, WellFormedMembers, string, number, nullable, withFlags]
  have below : Differs (.object [("c", .number), ("d", .string)] {})
      (.object [("d", .string), ("c", nullable .number)] {}) :=
    @Differs.inside _ _ _ _ "c" _ _ rfl rfl (.flags (by decide))
  have differs : first.Differs second := @Differs.inside _ _ _ _ "b" _ _ rfl rfl below
  have iff := equal_iff_accepts_eq .reject wellFormed otherWellFormed
  exact ⟨wellFormed, otherWellFormed, differs, iff.1, iff.2.1, iff.2.2 differs⟩

end Field

end JsonShape
