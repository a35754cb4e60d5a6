import JsonShape.Proofs.Description.RoundTrip

/-!
# Canonical descriptions

A description may give a flag that is not set, which says the same as leaving it out. `canonical`
leaves out every such flag and changes nothing else. Describing the field that a description says
gives its canonical form, so that two descriptions say equal fields exactly if their canonical forms
are the same, and two fields are equal exactly if their descriptions are.

For the last part the order of declaration must not matter: members in order of their names are
determined by what is found for each name (`Members.eq_of_lookup_eq`).
-/

namespace JsonShape

namespace Description

/-- A flag that is given as not set is left out. -/
def canonicalFlag (flag : Option Bool) : Option Bool :=
  if flag = some false then none else flag

mutual

/-- The description without the flags that are given as not set. -/
def canonical : Description → Description
  | .node typeName none isNullable isOptional =>
      .node typeName none (canonicalFlag isNullable) (canonicalFlag isOptional)
  | .node typeName (some members) isNullable isOptional =>
      .node typeName (some (canonicalMembers members)) (canonicalFlag isNullable)
        (canonicalFlag isOptional)

def canonicalMembers : List (String × Description) → List (String × Description)
  | [] => []
  | (name, description) :: rest => (name, canonical description) :: canonicalMembers rest

end

theorem canonicalMembers_eq_map (members : List (String × Description)) :
    canonicalMembers members = members.map fun member => (member.1, member.2.canonical) := by
  induction members with
  | nil => rfl
  | cons member rest ih => rw [canonicalMembers, ih, List.map_cons]

/-- A flag that is described again is given only if it is set. -/
theorem describeFlag_getD (flag : Option Bool) :
    Field.describeFlag (flag.getD false) = canonicalFlag flag := by
  rcases flag with _ | _ | _ <;> rfl

theorem describeMembers_of_toMembers {members : List (String × Description)}
    {inner : List (String × Field)} (said : toMembers members = .ok inner)
    (each : ∀ member ∈ members, ∀ field, member.2.toField = .ok field →
      field.describe = member.2.canonical) :
    Field.describeMembers inner = canonicalMembers members := by
  induction members generalizing inner with
  | nil =>
      cases said
      rfl
  | cons member rest ih =>
      rcases toMembers_cons_eq_ok_iff.mp said with ⟨field, later, fieldSaid, laterSaid, rfl⟩
      have tail := ih laterSaid fun other isMember => each other (List.mem_cons_of_mem _ isMember)
      rw [Field.describeMembers, canonicalMembers, tail,
        each member List.mem_cons_self field fieldSaid]

/-- Describing the field that a description says gives the canonical description. -/
theorem describe_of_toField {description : Description} {field : Field}
    (wellFormed : description.WellFormed) (said : description.toField = .ok field) :
    field.describe = description.canonical := by
  induction description using induct generalizing field with
  | node typeName fields isNullable isOptional ih =>
      rcases toField_eq_ok_iff.mp said with
        ⟨type, rfl, rfl, rfl⟩ | ⟨members, inner, rfl, rfl, allSaid, rfl⟩
      · simp only [Field.describe, givenFlags, describeFlag_getD, canonical]
      · have described := describeMembers_of_toMembers allSaid fun member isMember found =>
          ih members rfl member isMember (wellFormedMembers_iff.mp wellFormed.2 member isMember)
        have ordered : (Members.names (canonicalMembers members)).Pairwise (· < ·) := by
          rw [canonicalMembers_eq_map, Members.names, List.map_map]
          exact wellFormed.1
        simp only [Field.describe, givenFlags, describeFlag_getD, canonical, described,
          Members.sorted_eq_self ordered]

/-! ### The field that a description says -/

theorem names_of_toMembers {members : List (String × Description)} {inner : List (String × Field)}
    (said : toMembers members = .ok inner) : Members.names inner = Members.names members := by
  induction members generalizing inner with
  | nil =>
      cases said
      rfl
  | cons member rest ih =>
      rcases toMembers_cons_eq_ok_iff.mp said with ⟨field, later, -, laterSaid, rfl⟩
      rw [Members.names_cons, ih laterSaid, Members.names_cons]

theorem exists_of_mem_toMembers {members : List (String × Description)}
    {inner : List (String × Field)} (said : toMembers members = .ok inner) {field : String × Field}
    (isField : field ∈ inner) : ∃ member ∈ members, member.2.toField = .ok field.2 := by
  induction members generalizing inner with
  | nil =>
      cases said
      cases isField
  | cons member rest ih =>
      rcases toMembers_cons_eq_ok_iff.mp said with ⟨first, later, firstSaid, laterSaid, rfl⟩
      rcases List.mem_cons.mp isField with rfl | isLater
      · exact ⟨member, List.mem_cons_self, firstSaid⟩
      · rcases ih laterSaid isLater with ⟨other, isMember, otherSaid⟩
        exact ⟨other, List.mem_cons_of_mem _ isMember, otherSaid⟩

/-- A field keeps the order in which its description lists the members. -/
theorem ordered_of_toField {description : Description} {field : Field}
    (wellFormed : description.WellFormed) (said : description.toField = .ok field) :
    field.Ordered := by
  induction description using induct generalizing field with
  | node typeName fields isNullable isOptional ih =>
      rcases toField_eq_ok_iff.mp said with
        ⟨type, rfl, rfl, rfl⟩ | ⟨members, inner, rfl, rfl, allSaid, rfl⟩
      · trivial
      · refine ⟨names_of_toMembers allSaid ▸ wellFormed.1, Field.orderedMembers_iff.mpr ?_⟩
        intro field isField
        rcases exists_of_mem_toMembers allSaid isField with ⟨member, isMember, memberSaid⟩
        exact ih members rfl member isMember
          (wellFormedMembers_iff.mp wellFormed.2 member isMember) memberSaid

end Description

namespace Field

variable {first second : Field}

/-- Objects have the same description if they have the same members, whatever their order, and the
members have the same descriptions. -/
theorem describe_object_congr {members others : List (String × Field)} {flags : Flags}
    (distinct : (Members.names members).Nodup) (otherDistinct : (Members.names others).Nodup)
    (sameNames : ∀ name, name ∈ Members.names members ↔ name ∈ Members.names others)
    (sameFields : ∀ name field other, members.lookup name = some field →
      others.lookup name = some other → field.describe = other.describe) :
    (object members flags).describe = (object others flags).describe := by
  have ordered (members : List (String × Field)) : (Members.names
      ((Members.sorted members).map fun member => (member.1, member.2.describe))).Pairwise
        (· < ·) := by
    rw [Members.names, List.map_map]
    exact Members.sorted_pairwise members
  rw [describe_object, describe_object]
  congr 2
  apply Members.eq_of_lookup_eq (ordered members) (ordered others)
  intro name
  rw [Members.lookup_map, Members.lookup_map, Members.lookup_sorted distinct,
    Members.lookup_sorted otherDistinct]
  cases found : members.lookup name with
  | none =>
      rw [Members.lookup_eq_none_iff_not_mem, sameNames,
        ← Members.lookup_eq_none_iff_not_mem] at found
      rw [found]
  | some field =>
      have isMember := Members.mem_names_of_mem (Members.mem_of_lookup found)
      rcases Members.exists_lookup_of_mem_names ((sameNames name).mp isMember) with
        ⟨other, otherFound⟩
      rw [otherFound, Option.map_some, Option.map_some, sameFields name field other found otherFound]

/-- Equal fields have the same description, whatever the order of their declarations. -/
theorem describe_eq_of_equal (wellFormed : first.WellFormed) (otherWellFormed : second.WellFormed)
    (isEqual : first.equal second = true) : first.describe = second.describe := by
  induction first using induct generalizing second with
  | leaf type flags =>
      cases second with
      | leaf otherType otherFlags =>
          simp only [equal, Bool.and_eq_true, decide_eq_true_eq] at isEqual
          rw [isEqual.1, isEqual.2]
      | object others otherFlags => cases isEqual
  | object members flags inside =>
      cases second with
      | leaf otherType otherFlags => cases isEqual
      | object others otherFlags =>
          rcases (equal_object_iff wellFormed.1 otherWellFormed.1).mp isEqual with
            ⟨rfl, sameNames, equalFields⟩
          apply describe_object_congr wellFormed.1 otherWellFormed.1 sameNames
          intro name field other found otherFound
          have member := Members.mem_of_lookup found
          have otherMember := Members.mem_of_lookup otherFound
          exact inside (name, field) member (wellFormedMembers_iff.mp wellFormed.2 _ member)
            (wellFormedMembers_iff.mp otherWellFormed.2 _ otherMember)
            (equalFields name field other found otherFound)

/-- Fields are equal exactly if their descriptions are the same. -/
theorem describe_eq_iff_equal (wellFormed : first.WellFormed)
    (otherWellFormed : second.WellFormed) :
    first.describe = second.describe ↔ first.equal second = true := by
  constructor
  · intro same
    have said := Description.toField_describe wellFormed
    rw [same, Description.toField_describe otherWellFormed, Except.ok.injEq] at said
    -- Both are equal to the field that is found again, so no value tells them apart.
    have agree : Agree .ignore first second := by
      intro value _
      have found := accepts_eq_of_equal .ignore
        (wellFormed_of_ordered (ordered_sorted wellFormed)) wellFormed (equal_sorted wellFormed)
        value
      have otherFound := accepts_eq_of_equal .ignore
        (wellFormed_of_ordered (ordered_sorted otherWellFormed)) otherWellFormed
        (equal_sorted otherWellFormed) value
      rw [← found, ← otherFound, said]
    exact agree.equal wellFormed otherWellFormed
  · exact describe_eq_of_equal wellFormed otherWellFormed

end Field

namespace Description

/-- Describing what a description says leaves out the flags that it gives as not set, at every node,
and changes nothing else. So two descriptions say equal fields exactly if they are the same but for
such flags, and two fields have the same description exactly if they are equal. -/
theorem describe_eq_canonical :
    (∀ (description : Description) (field : Field), description.WellFormed →
      description.toField = .ok field → field.describe = description.canonical) ∧
    (∀ (first second : Description) (firstField secondField : Field), first.WellFormed →
      second.WellFormed → first.toField = .ok firstField → second.toField = .ok secondField →
        (firstField.equal secondField = true ↔ first.canonical = second.canonical)) ∧
    ∀ first second : Field, first.WellFormed → second.WellFormed →
      (first.describe = second.describe ↔ first.equal second = true) := by
  refine ⟨fun description field => describe_of_toField, ?_,
    fun first second => Field.describe_eq_iff_equal⟩
  intro first second firstField secondField wellFormed otherWellFormed said otherSaid
  have fieldWellFormed := Field.wellFormed_of_ordered (ordered_of_toField wellFormed said)
  have otherFieldWellFormed :=
    Field.wellFormed_of_ordered (ordered_of_toField otherWellFormed otherSaid)
  rw [← describe_of_toField wellFormed said, ← describe_of_toField otherWellFormed otherSaid,
    Field.describe_eq_iff_equal fieldWellFormed otherFieldWellFormed]

/-- Two descriptions of one field, with flags given as not set at different nodes, and the field
with its members declared in the other order. -/
theorem describe_eq_canonical_nested :
    let empty (isOptional : Option Bool) : Description :=
      .node "object" (some []) (some true) isOptional
    let wordy : Description :=
      .node "object" (some [("a", .node "number" none (some false) (some true)),
        ("b", empty (some false))]) (some false) none
    let terse : Description :=
      .node "object" (some [("a", .node "number" none none (some true)), ("b", empty none)]) none
        none
    let number : Field := .leaf .number ⟨false, true⟩
    let field : Field := .object [("a", number), ("b", .object [] ⟨true, false⟩)] {}
    let reordered : Field := .object [("b", .object [] ⟨true, false⟩), ("a", number)] {}
    (wordy.WellFormed ∧ terse.WellFormed ∧ field.WellFormed ∧ reordered.WellFormed) ∧
      wordy.toField = .ok field ∧ terse.toField = .ok field ∧ field.describe = wordy.canonical ∧
      (field.equal field = true ↔ wordy.canonical = terse.canonical) ∧
      reordered.equal field = true ∧ (reordered.describe = field.describe ↔
        reordered.equal field = true) := by
  intro empty wordy terse number field reordered
  have wordyWellFormed : wordy.WellFormed := ⟨by decide, trivial, ⟨by decide, trivial⟩, trivial⟩
  have terseWellFormed : terse.WellFormed := ⟨by decide, trivial, ⟨by decide, trivial⟩, trivial⟩
  have wellFormed : field.WellFormed := ⟨by decide, trivial, ⟨by decide, trivial⟩, trivial⟩
  have otherWellFormed : reordered.WellFormed := ⟨by decide, ⟨by decide, trivial⟩, trivial, trivial⟩
  rcases describe_eq_canonical with ⟨described, saidEqual, sameDescription⟩
  exact ⟨⟨wordyWellFormed, terseWellFormed, wellFormed, otherWellFormed⟩, rfl, rfl,
    described wordy field wordyWellFormed rfl,
    saidEqual wordy terse field field wordyWellFormed terseWellFormed rfl rfl, rfl,
    sameDescription reordered field otherWellFormed wellFormed⟩

end Description

end JsonShape
