import JsonShape.Description.Reading
import JsonShape.Proofs.Schema.Equality

/-!
# Describing a schema and reading it back

A description that lists its fields in order is read back from its JSON value as it was written
(`ofJson_toJson`). The description of a field is such a description, and the field that it says is
the field itself with the members of each object node in order (`toField_describe`). The order of
declaration is therefore all that is lost on the way.
-/

namespace JsonShape

namespace Field

mutual

/-- The field, where every object node lists its members in order of their names. -/
def sorted : Field → Field
  | .leaf type flags => .leaf type flags
  | .object members flags => .object (Members.sorted (sortedMembers members)) flags

def sortedMembers : List (String × Field) → List (String × Field)
  | [] => []
  | (name, field) :: rest => (name, sorted field) :: sortedMembers rest

end

mutual

/-- Every object node inside the field lists its members in order of their names. -/
def Ordered : Field → Prop
  | .leaf _ _ => True
  | .object members _ => (Members.names members).Pairwise (· < ·) ∧ OrderedMembers members

def OrderedMembers : List (String × Field) → Prop
  | [] => True
  | (_, field) :: rest => Ordered field ∧ OrderedMembers rest

end

section Sorted

variable {members : List (String × Field)} {flags : Flags} {field : Field}

theorem sortedMembers_eq_map (members : List (String × Field)) :
    sortedMembers members = members.map fun member => (member.1, member.2.sorted) := by
  induction members with
  | nil => rfl
  | cons member rest ih => rw [sortedMembers, ih, List.map_cons]

theorem describeMembers_eq_map (members : List (String × Field)) :
    describeMembers members = members.map fun member => (member.1, member.2.describe) := by
  induction members with
  | nil => rfl
  | cons member rest ih => rw [describeMembers, ih, List.map_cons]

theorem orderedMembers_iff :
    OrderedMembers members ↔ ∀ member ∈ members, member.2.Ordered := by
  induction members with
  | nil => simp [OrderedMembers]
  | cons member rest ih => simp [OrderedMembers, ih]

theorem sorted_object (members : List (String × Field)) (flags : Flags) :
    (object members flags).sorted =
      .object ((Members.sorted members).map fun member => (member.1, member.2.sorted)) flags := by
  rw [sorted, sortedMembers_eq_map, Members.sorted_map]

theorem describe_object (members : List (String × Field)) (flags : Flags) :
    (object members flags).describe =
      .node Json.Kind.object.spelling
        (some ((Members.sorted members).map fun member => (member.1, member.2.describe)))
        (describeFlag flags.nullable) (describeFlag flags.optional) := by
  rw [describe, describeMembers_eq_map, Members.sorted_map]

/-- Sorting the members of a well-formed node keeps each of them, and keeps them well-formed. -/
theorem wellFormed_of_mem_sorted (wellFormed : (object members flags).WellFormed)
    {member : String × Field} (isMember : member ∈ Members.sorted members) :
    member ∈ members ∧ member.2.WellFormed := by
  have declared := (Members.sorted_perm wellFormed.1).mem_iff.mp isMember
  exact ⟨declared, wellFormedMembers_iff.mp wellFormed.2 member declared⟩

theorem ordered_sorted (wellFormed : field.WellFormed) : field.sorted.Ordered := by
  induction field using induct with
  | leaf type flags => trivial
  | object members flags inside =>
      rw [sorted_object]
      refine ⟨?_, orderedMembers_iff.mpr ?_⟩
      · rw [Members.names, List.map_map]
        exact Members.sorted_pairwise members
      · intro member isMember
        rcases List.mem_map.mp isMember with ⟨listed, isListed, rfl⟩
        rcases wellFormed_of_mem_sorted wellFormed isListed with ⟨declared, listedWellFormed⟩
        exact inside listed declared listedWellFormed

theorem wellFormed_of_ordered (ordered : field.Ordered) : field.WellFormed := by
  induction field using induct with
  | leaf type flags => trivial
  | object members flags inside =>
      refine ⟨Members.nodup_of_pairwise ordered.1, wellFormedMembers_iff.mpr ?_⟩
      intro member isMember
      apply inside member isMember
      exact orderedMembers_iff.mp ordered.2 member isMember

theorem equal_sorted (wellFormed : field.WellFormed) : field.sorted.equal field = true := by
  induction field using induct with
  | leaf type flags => simp [sorted, equal]
  | object members flags inside =>
      have sortedWellFormed := wellFormed_of_ordered (ordered_sorted wellFormed)
      rw [sorted_object] at sortedWellFormed ⊢
      have reordered := Members.sorted_perm wellFormed.1
      refine (equal_object_iff sortedWellFormed.1 wellFormed.1).mpr ⟨rfl, ?_, ?_⟩
      · intro name
        rw [Members.names, List.map_map]
        exact (reordered.map Prod.fst).mem_iff
      · intro name first second found otherFound
        rcases List.mem_map.mp (Members.mem_of_lookup found) with ⟨member, isMember, same⟩
        rcases wellFormed_of_mem_sorted wellFormed isMember with ⟨declared, memberWellFormed⟩
        cases same
        rw [(Members.lookup_eq_some_iff_mem wellFormed.1).mpr declared] at otherFound
        cases otherFound
        exact inside member declared memberWellFormed

end Sorted

end Field

namespace Description

open JsonShape.Field

/-! ### The field that a description says -/

theorem givenFlags_describeFlag (flags : Flags) :
    givenFlags (describeFlag flags.nullable) (describeFlag flags.optional) = flags := by
  rcases flags with ⟨_ | _, _ | _⟩ <;> rfl

/-- Fields that are all said are said together, in their order. -/
theorem toMembers_map {members : List (String × Field)}
    (said : ∀ member ∈ members, member.2.describe.toField = .ok member.2.sorted) :
    toMembers (members.map fun member => (member.1, member.2.describe)) =
      .ok (members.map fun member => (member.1, member.2.sorted)) := by
  induction members with
  | nil => rfl
  | cons member rest ih =>
      have later := ih fun other isMember => said other (List.mem_cons_of_mem _ isMember)
      simp only [List.map_cons, toMembers, said member List.mem_cons_self, later]

theorem toField_describe {field : Field} (wellFormed : field.WellFormed) :
    field.describe.toField = .ok field.sorted := by
  induction field using Field.induct with
  | leaf type flags =>
      cases type <;>
        simp only [describe, toField, LeafType.spelling, LeafType.kind,
          Json.Kind.ofSpelling?_spelling, givenFlags_describeFlag] <;> rfl
  | object members flags inside =>
      have each : ∀ member ∈ Members.sorted members,
          member.2.describe.toField = .ok member.2.sorted := by
        intro member isMember
        rcases wellFormed_of_mem_sorted wellFormed isMember with ⟨declared, memberWellFormed⟩
        exact inside member declared memberWellFormed
      have said := toMembers_map each
      rw [describe_object, sorted_object]
      simp only [toField, Json.Kind.ofSpelling?_spelling, said, givenFlags_describeFlag]

theorem wellFormed_describe {field : Field} (wellFormed : field.WellFormed) :
    field.describe.WellFormed := by
  induction field using Field.induct with
  | leaf type flags => trivial
  | object members flags inside =>
      rw [describe_object]
      refine ⟨?_, wellFormedMembers_iff.mpr ?_⟩
      · rw [Members.names, List.map_map]
        exact Members.sorted_pairwise members
      · intro member isMember
        rcases List.mem_map.mp isMember with ⟨listed, isListed, rfl⟩
        rcases wellFormed_of_mem_sorted wellFormed isListed with ⟨declared, listedWellFormed⟩
        exact inside listed declared listedWellFormed

/-! ### Reading a description back -/

section Reading

variable {source : Source} {known after : Partial} {rest : List (String × Json.Document)}
  {ending : Json.Ending}

theorem Key.ofSpelling?_spelling (key : Key) : Key.ofSpelling? key.spelling = some key := by
  cases key <;> decide

theorem readMembers_cons {key : Key} {document : Json.Document} (fresh : known.has key = false)
    (read : readKey source known key document = .ok after) :
    readMembers source known ((key.spelling, document) :: rest) ending =
      readMembers source after rest ending := by
  simp only [readMembers, Key.ofSpelling?_spelling, fresh, Bool.false_eq_true, if_false, read]

/-- The entry of a key that is written only if it is given. -/
def entryOf {Value : Type} (key : Key) (write : Value → Json.Document) (given : Option Value) :
    List (String × Json.Document) :=
  (given.map fun value => (key.spelling, write value)).toList

theorem readMembers_entryOf {Value : Type} {key : Key} {write : Value → Json.Document}
    {given : Option Value} (fresh : known.has key = false) (missing : given = none → known = after)
    (read : ∀ value ∈ given, readKey source known key (write value) = .ok after) :
    readMembers source known (entryOf key write given ++ rest) ending =
      readMembers source after rest ending := by
  cases given with
  | none => exact missing rfl ▸ rfl
  | some value => exact readMembers_cons fresh (read value rfl)

/-- The document of a written description has its keys in order. -/
theorem document_toJson (typeName : String) (fields : Option (List (String × Description)))
    (isNullable isOptional : Option Bool) :
    Json.Document.ofJson (node typeName fields isNullable isOptional).toJson =
      .object (entryOf .fields (fun members => .ofJson (.object (toJsonMembers members))) fields ++
        (entryOf .isNullable .bool isNullable ++ (entryOf .isOptional .bool isOptional ++
          [(Key.type.spelling, .string typeName)]))) .closed := by
  cases fields <;> cases isNullable <;> cases isOptional <;>
    simp only [toJson, Json.Document.ofJson, Json.Document.ofJsonMembers, Members.sorted,
      Members.insert, String.reduceLT, String.reduceEq, ↓reduceIte, entryOf, Key.spelling,
      Option.map_none, Option.map_some, Option.toList_none, Option.toList_some, List.foldl_nil,
      List.foldl_cons, List.nil_append, List.append_nil, List.cons_append]

theorem names_ofJsonMembers (members : List (String × Description)) :
    Members.names (Json.Document.ofJsonMembers (toJsonMembers members)) =
      Members.names members := by
  induction members with
  | nil => rfl
  | cons member rest ih =>
      rw [toJsonMembers, Json.Document.ofJsonMembers, Members.names_cons, ih]
      rfl

/-- A description is read from its document if its fields are. -/
theorem read_document_toJson {typeName : String} {fields : Option (List (String × Description))}
    {isNullable isOptional : Option Bool}
    (fieldsRead : ∀ members ∈ fields,
      readKey source {} .fields (.ofJson (.object (toJsonMembers members))) =
        .ok { fields := some (some members) }) :
    read source (.ofJson (node typeName fields isNullable isOptional).toJson) =
      .ok (.node typeName fields isNullable isOptional) := by
  let withFields : Partial := { fields := fields.map some }
  let withNullable : Partial := { withFields with isNullable := isNullable.map some }
  let withOptional : Partial := { withNullable with isOptional := isOptional.map some }
  let withType : Partial := { withOptional with typeName := some typeName }
  rw [document_toJson, read]
  calc readMembers source {} _ .closed
      = readMembers source withFields _ .closed := by
        apply readMembers_entryOf rfl
        · rintro rfl
          rfl
        · rintro members ⟨⟩
          exact fieldsRead members rfl
    _ = readMembers source withNullable _ .closed := by
        apply readMembers_entryOf rfl
        · rintro rfl
          rfl
        · rintro value ⟨⟩
          rfl
    _ = readMembers source withOptional _ .closed := by
        apply readMembers_entryOf rfl
        · rintro rfl
          rfl
        · rintro value ⟨⟩
          rfl
    _ = readMembers source withType [] .closed := readMembers_cons rfl rfl
    _ = .ok (.node typeName fields isNullable isOptional) := by
        cases fields <;> cases isNullable <;> cases isOptional <;> rfl

mutual

/-- A description with its fields in order is read back from its document. -/
theorem read_toJson (source : Source) : (description : Description) → description.WellFormed →
    read source (.ofJson description.toJson) = .ok description
  | .node _ none _ _, _ => read_document_toJson (by simp)
  | .node _ (some members) _ _, wellFormed => by
      have each := readFields_toJson source members wellFormed.2
      have ordered : Members.sorted (Json.Document.ofJsonMembers (toJsonMembers members)) =
          Json.Document.ofJsonMembers (toJsonMembers members) :=
        Members.sorted_eq_self ((names_ofJsonMembers members).symm ▸ wellFormed.1)
      apply read_document_toJson
      rintro given ⟨⟩
      rw [Json.Document.ofJson, ordered]
      simp only [readKey, each, Members.sorted_eq_self wellFormed.1]

theorem readFields_toJson (source : Source) : (members : List (String × Description)) →
    WellFormedMembers members →
      readFields source (Json.Document.ofJsonMembers (toJsonMembers members)) .closed =
        .ok members
  | [], _ => by rw [toJsonMembers, Json.Document.ofJsonMembers, readFields, atEnd]
  | (name, description) :: rest, wellFormed => by
      have first := read_toJson source description wellFormed.1
      have later := readFields_toJson source rest wellFormed.2
      simp only [toJsonMembers, Json.Document.ofJsonMembers, readFields, first, later]

end

theorem ofJson_toJson {description : Description} (wellFormed : description.WellFormed) :
    ofJson description.toJson = .ok description :=
  read_toJson .value description wellFormed

end Reading

end Description

namespace Field

/-- A field, and likewise a schema, is found again in the JSON value of its description, but for
the order of its members: they are in order of their names. The description is read as it was
written. -/
theorem exists_toField_of_describe_toJson :
    (∀ field : Field, field.WellFormed →
      Description.ofJson field.describe.toJson = .ok field.describe ∧
        ∃ found, field.describe.toField = .ok found ∧ found.equal field = true ∧
          found.Ordered) ∧
    ∀ schema : Schema, schema.toField.WellFormed →
      Description.ofJson schema.toField.describe.toJson = .ok schema.toField.describe ∧
        ∃ found, schema.toField.describe.toSchema = .ok found ∧
          found.toField.equal schema.toField = true ∧ found.toField.Ordered := by
  constructor
  · intro field wellFormed
    exact ⟨Description.ofJson_toJson (Description.wellFormed_describe wellFormed), field.sorted,
      Description.toField_describe wellFormed, equal_sorted wellFormed, ordered_sorted wellFormed⟩
  · intro schema wellFormed
    have said := Description.toField_describe wellFormed
    have sameFields := equal_sorted wellFormed
    have inOrder := ordered_sorted wellFormed
    rw [Schema.toField, sorted_object] at said sameFields inOrder
    refine ⟨Description.ofJson_toJson (Description.wellFormed_describe wellFormed),
      ⟨_, schema.flags⟩, ?_, sameFields, inOrder⟩
    rw [Description.toSchema, Schema.toField, said]

/-- A schema whose members are declared out of order on two levels, with flags on a leaf, on an
object node without members and at the root. -/
theorem exists_toField_of_describe_toJson_nested :
    let inner : Field := .object [("b", .number), ("é", optional (.object [] {})), ("", .string)] {}
    let schema : Schema := Schema.nullable ⟨[("z", nullable .string), ("a\"", inner)], {}⟩
    inner.WellFormed ∧ schema.toField.WellFormed ∧
      (Description.ofJson inner.describe.toJson = .ok inner.describe ∧
        ∃ found, inner.describe.toField = .ok found ∧ found.equal inner = true ∧ found.Ordered) ∧
      Description.ofJson schema.toField.describe.toJson = .ok schema.toField.describe ∧
        ∃ found, schema.toField.describe.toSchema = .ok found ∧
          found.toField.equal schema.toField = true ∧ found.toField.Ordered := by
  intro inner schema
  have innerWellFormed : inner.WellFormed := by
    simp [inner, WellFormed, WellFormedMembers, string, number, optional, withFlags]
  have wellFormed : schema.toField.WellFormed := by
    refine ⟨by decide, ?_, innerWellFormed, trivial⟩
    simp [nullable, withFlags, string, WellFormed]
  exact ⟨innerWellFormed, wellFormed, exists_toField_of_describe_toJson.1 inner innerWellFormed,
    exists_toField_of_describe_toJson.2 schema wellFormed⟩

end Field

end JsonShape
