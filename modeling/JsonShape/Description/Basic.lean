import JsonShape.Schema.Basic
import JsonShape.Text.Quotation

/-!
# Descriptions of schemas

A description is a schema as a JSON value says it: a type by its name, the fields of an object,
and each flag either given or left out. Not every description is a schema: the type may be
unknown, a leaf may have fields, an object may lack them. Fields are in order of their names, and
each name stands once (`Description.WellFormed`).

`Description.toField` finds the schema that is described, or the first fault: a node comes before
its fields, and fields are visited in order. `Field.describe` is the description with no flag
given unless it is set.
-/

namespace JsonShape

/-- A schema as a JSON value says it. -/
inductive Description
  | node (typeName : String) (fields : Option (List (String × Description)))
      (isNullable isOptional : Option Bool)
  deriving Repr

/-- Why a description is no schema. -/
inductive Description.Error
  /-- There is no type of this name. -/
  | invalidType (name : String)
  /-- Fields are given for a leaf. -/
  | fieldsOnLeaf (type : LeafType)
  /-- No fields are given for an object. -/
  | missingFields
  /-- A leaf stands where the root of a schema is asked for. -/
  | rootNotObject (type : LeafType)
  deriving Repr, DecidableEq

namespace LeafType

def spelling (type : LeafType) : String :=
  type.kind.spelling

end LeafType

namespace Description

def Error.message : Error → String
  | .invalidType name => "invalid type: " ++ Text.quoteString name
  | .fieldsOnLeaf type => "fields given on a " ++ type.spelling ++ " schema"
  | .missingFields => "object schema has no fields"
  | .rootNotObject type =>
      "root schema must be an object, got " ++ Text.quoteString type.spelling

/-- The flags that are given, where a flag that is left out is not set. -/
def givenFlags (isNullable isOptional : Option Bool) : Flags :=
  ⟨isNullable.getD false, isOptional.getD false⟩

/-- A leaf, for which no fields may be given. -/
def leaf (type : LeafType) (fields : Option (List (String × Description))) (flags : Flags) :
    Except Error Field :=
  match fields with
  | none => .ok (.leaf type flags)
  | some _ => .error (.fieldsOnLeaf type)

mutual

/-- The field that a description says, or its first fault. -/
def toField : Description → Except Error Field
  | .node typeName fields isNullable isOptional =>
      match Json.Kind.ofSpelling? typeName with
      | some .string => leaf .string fields (givenFlags isNullable isOptional)
      | some .number => leaf .number fields (givenFlags isNullable isOptional)
      | some .object =>
          match fields with
          | none => .error .missingFields
          | some members =>
              match toMembers members with
              | .error error => .error error
              | .ok members => .ok (.object members (givenFlags isNullable isOptional))
      | none => .error (.invalidType typeName)

/-- The fields that some descriptions say, or the first fault among them. -/
def toMembers : List (String × Description) → Except Error (List (String × Field))
  | [] => .ok []
  | (name, description) :: rest =>
      match toField description with
      | .error error => .error error
      | .ok field =>
          match toMembers rest with
          | .error error => .error error
          | .ok rest => .ok ((name, field) :: rest)

end

theorem leaf_eq_ok_iff {type : LeafType} {fields : Option (List (String × Description))}
    {flags : Flags} {field : Field} :
    leaf type fields flags = .ok field ↔ fields = none ∧ field = .leaf type flags := by
  cases fields with
  | none => simp [leaf, eq_comm]
  | some members => simp [leaf]

/-- What is said is a leaf without fields, or an object whose fields are all said. -/
theorem toField_eq_ok_iff {typeName : String} {fields : Option (List (String × Description))}
    {isNullable isOptional : Option Bool} {field : Field} :
    (node typeName fields isNullable isOptional).toField = .ok field ↔
      (∃ type : LeafType, typeName = type.spelling ∧ fields = none ∧
        field = .leaf type (givenFlags isNullable isOptional)) ∨
      ∃ members inner, typeName = Json.Kind.object.spelling ∧ fields = some members ∧
        toMembers members = .ok inner ∧
          field = .object inner (givenFlags isNullable isOptional) := by
  constructor
  · intro said
    rw [toField.eq_def] at said
    simp only at said
    split at said
    · rename_i known
      exact .inl ⟨.string, Json.Kind.ofSpelling?_eq_some_iff.mp known, leaf_eq_ok_iff.mp said⟩
    · rename_i known
      exact .inl ⟨.number, Json.Kind.ofSpelling?_eq_some_iff.mp known, leaf_eq_ok_iff.mp said⟩
    · rename_i known
      split at said
      · cases said
      · rename_i members
        split at said
        · cases said
        · rename_i inner allSaid
          cases said
          exact .inr ⟨members, inner, Json.Kind.ofSpelling?_eq_some_iff.mp known, rfl, allSaid, rfl⟩
    · cases said
  · rintro (⟨type, rfl, rfl, rfl⟩ | ⟨members, inner, rfl, rfl, allSaid, rfl⟩)
    · cases type <;> rfl
    · simp only [toField, Json.Kind.ofSpelling?_spelling, allSaid]

theorem toMembers_cons_eq_ok_iff {name : String} {description : Description}
    {rest : List (String × Description)} {inner : List (String × Field)} :
    toMembers ((name, description) :: rest) = .ok inner ↔
      ∃ field later, description.toField = .ok field ∧ toMembers rest = .ok later ∧
        inner = (name, field) :: later := by
  rw [toMembers]
  cases description.toField with
  | error error => simp
  | ok field =>
      cases toMembers rest with
      | error error => simp
      | ok later => simp [eq_comm]

/-- The schema that a description says: an object at its root. -/
def toSchema (description : Description) : Except Error Schema :=
  match description.toField with
  | .error error => .error error
  | .ok (.object members flags) => .ok ⟨members, flags⟩
  | .ok (.leaf type _) => .error (.rootNotObject type)

mutual

/-- A description as a JSON value. What is left out is not written. -/
def toJson : Description → Json
  | .node typeName fields isNullable isOptional =>
      .object (("type", .string typeName) ::
        (match fields with
          | none => []
          | some members => [("fields", .object (toJsonMembers members))]) ++
        (match isNullable with
          | none => []
          | some value => [("isNullable", .bool value)]) ++
        (match isOptional with
          | none => []
          | some value => [("isOptional", .bool value)]))

def toJsonMembers : List (String × Description) → List (String × Json)
  | [] => []
  | (name, description) :: rest => (name, toJson description) :: toJsonMembers rest

end

mutual

/-- The fields of every node are in order of their names, and each name stands once. -/
def WellFormed : Description → Prop
  | .node _ none _ _ => True
  | .node _ (some members) _ _ =>
      (Members.names members).Pairwise (· < ·) ∧ WellFormedMembers members

def WellFormedMembers : List (String × Description) → Prop
  | [] => True
  | (_, description) :: rest => WellFormed description ∧ WellFormedMembers rest

end

theorem wellFormedMembers_iff {members : List (String × Description)} :
    WellFormedMembers members ↔ ∀ member ∈ members, member.2.WellFormed := by
  induction members with
  | nil => simp [WellFormedMembers]
  | cons member rest ih => simp [WellFormedMembers, ih]

/-- Induction on the descriptions inside a description. -/
@[elab_as_elim]
theorem induct {motive : Description → Prop}
    (node : ∀ (typeName : String) (fields : Option (List (String × Description)))
      (isNullable isOptional : Option Bool),
      (∀ members ∈ fields, ∀ member ∈ members, motive member.2) →
        motive (.node typeName fields isNullable isOptional))
    (description : Description) : motive description :=
  Description.rec
    (fun typeName fields isNullable isOptional inside =>
      node typeName fields isNullable isOptional inside)
    (fun _ given => absurd given (Option.not_mem_none _))
    (fun _ inside _ given => Option.mem_some.mp given ▸ inside)
    (fun _ member => absurd member List.not_mem_nil)
    (fun _ _ first later member isMember => by
      rcases List.mem_cons.mp isMember with rfl | isLater
      · exact first
      · exact later member isLater)
    (fun _ _ inside => inside) description

end Description

namespace Field

/-- A flag as a description gives it: only if it is set. -/
def describeFlag (flag : Bool) : Option Bool :=
  if flag then some true else none

mutual

def describe : Field → Description
  | .leaf type flags =>
      .node type.spelling none (describeFlag flags.nullable) (describeFlag flags.optional)
  | .object members flags =>
      .node Json.Kind.object.spelling (some (Members.sorted (describeMembers members)))
        (describeFlag flags.nullable) (describeFlag flags.optional)

def describeMembers : List (String × Field) → List (String × Description)
  | [] => []
  | (name, field) :: rest => (name, describe field) :: describeMembers rest

end

end Field

end JsonShape
