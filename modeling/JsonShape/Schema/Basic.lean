import JsonShape.Json.Kind

/-!
# Schemas

A schema is a tree of object nodes with string and number leaves. Every node may be nullable,
optional, or both. Declared fields keep the order of their declaration, which decides the order of
everything that is written about a schema but not what it accepts: `Field.equal` ignores it.

`Field.WellFormed` says that no node declares a name twice. The builders keep it, because of a
repeated name only the last field counts.

A `Schema` is what may stand at the root: an object node.
-/

namespace JsonShape

inductive LeafType
  | string
  | number
  deriving Repr, DecidableEq

/-- The kind of values that a leaf accepts. -/
def LeafType.kind : LeafType → Json.Kind
  | .string => .string
  | .number => .number

theorem LeafType.eq_of_kind_eq {first second : LeafType} (same : first.kind = second.kind) :
    first = second := by
  cases first <;> cases second <;> cases same <;> rfl

/-- What a node accepts beside values of its type. -/
structure Flags where
  /-- The node accepts `null`. -/
  nullable : Bool := false
  /-- The node may be missing from the object around it. -/
  optional : Bool := false
  deriving Repr, DecidableEq

/-- A node of a schema. -/
inductive Field
  | leaf (type : LeafType) (flags : Flags)
  | object (members : List (String × Field)) (flags : Flags)
  deriving Repr

namespace Field

def string : Field :=
  .leaf .string {}

def number : Field :=
  .leaf .number {}

/-- An object node without flags. If a name repeats, its last field counts. -/
def ofPairs (pairs : List (String × Field)) : Field :=
  .object (Members.ofPairs pairs) {}

def flags : Field → Flags
  | .leaf _ flags => flags
  | .object _ flags => flags

def withFlags (flags : Flags) : Field → Field
  | .leaf type _ => .leaf type flags
  | .object members _ => .object members flags

/-- The node, which now accepts `null` too. -/
def nullable (field : Field) : Field :=
  field.withFlags { field.flags with nullable := true }

/-- The node, which may now be missing too. -/
def optional (field : Field) : Field :=
  field.withFlags { field.flags with optional := true }

/-- The kind of values that a node accepts. -/
def kind : Field → Json.Kind
  | .leaf type _ => type.kind
  | .object _ _ => .object

mutual

/-- No object node inside the field declares a name twice. -/
def WellFormed : Field → Prop
  | .leaf _ _ => True
  | .object members _ => (Members.names members).Nodup ∧ WellFormedMembers members

def WellFormedMembers : List (String × Field) → Prop
  | [] => True
  | (_, field) :: rest => WellFormed field ∧ WellFormedMembers rest

end

mutual

/-- Whether two nodes have the same type and flags and declare equal fields, in whatever order. -/
def equal : Field → Field → Bool
  | .leaf type flags, .leaf otherType otherFlags => type = otherType && flags = otherFlags
  | .object members flags, .object otherMembers otherFlags =>
      flags = otherFlags && members.length = otherMembers.length &&
        equalMembers members otherMembers
  | .leaf _ _, .object _ _ | .object _ _, .leaf _ _ => false

/-- Whether every one of the first fields is declared, with an equal field, among the second. -/
def equalMembers : List (String × Field) → List (String × Field) → Bool
  | [], _ => true
  | (name, field) :: rest, others =>
      (match others.lookup name with
        | some other => equal field other
        | none => false) && equalMembers rest others

end

end Field

/-- An object node that may stand at the root. -/
structure Schema where
  members : List (String × Field)
  flags : Flags
  deriving Repr

namespace Schema

/-- A schema without flags. If a name repeats, its last field counts. -/
def ofPairs (pairs : List (String × Field)) : Schema :=
  ⟨Members.ofPairs pairs, {}⟩

/-- The schema, which now accepts `null` too. -/
def nullable (schema : Schema) : Schema :=
  { schema with flags := { schema.flags with nullable := true } }

/-- The schema, which now accepts an absent value too. -/
def optional (schema : Schema) : Schema :=
  { schema with flags := { schema.flags with optional := true } }

def toField (schema : Schema) : Field :=
  .object schema.members schema.flags

/-- The schema that an object node is. -/
def ofField? : Field → Option Schema
  | .object members flags => some ⟨members, flags⟩
  | .leaf _ _ => none

@[simp]
theorem ofField?_toField (schema : Schema) : ofField? schema.toField = some schema := rfl

@[simp]
theorem toField_nullable (schema : Schema) :
    schema.nullable.toField = schema.toField.nullable := rfl

@[simp]
theorem toField_optional (schema : Schema) :
    schema.optional.toField = schema.toField.optional := rfl

end Schema

namespace Field

/-- Induction on the fields inside a field. -/
@[elab_as_elim]
theorem induct {motive : Field → Prop}
    (leaf : ∀ (type : LeafType) (flags : Flags), motive (.leaf type flags))
    (object : ∀ (members : List (String × Field)) (flags : Flags),
      (∀ member ∈ members, motive member.2) → motive (.object members flags))
    (field : Field) : motive field :=
  Field.rec leaf (fun members flags inside => object members flags inside)
    (fun _ member => absurd member List.not_mem_nil)
    (fun _ _ first later member isMember => by
      rcases List.mem_cons.mp isMember with rfl | isLater
      · exact first
      · exact later member isLater)
    (fun _ _ inside => inside) field

theorem wellFormedMembers_iff {members : List (String × Field)} :
    WellFormedMembers members ↔ ∀ member ∈ members, member.2.WellFormed := by
  induction members with
  | nil => simp [WellFormedMembers]
  | cons member rest ih => simp [WellFormedMembers, ih]

@[simp]
theorem flags_withFlags (flags : Flags) (field : Field) :
    (field.withFlags flags).flags = flags := by
  cases field <;> rfl

@[simp]
theorem kind_withFlags (flags : Flags) (field : Field) :
    (field.withFlags flags).kind = field.kind := by
  cases field <;> rfl

theorem wellFormed_withFlags {flags : Flags} {field : Field} (wellFormed : field.WellFormed) :
    (field.withFlags flags).WellFormed := by
  cases field with
  | leaf type old => simp [withFlags, WellFormed]
  | object members old => simpa [withFlags, WellFormed] using wellFormed

theorem wellFormedMembers_put {name : String} {field : Field} {members : List (String × Field)}
    (wellFormed : field.WellFormed) (rest : WellFormedMembers members) :
    WellFormedMembers (Members.put name field members) := by
  induction members with
  | nil => simp [Members.put, WellFormedMembers, wellFormed]
  | cons head tail ih =>
      obtain ⟨other, old⟩ := head
      simp only [WellFormedMembers] at rest
      by_cases same : other = name
      · simp [Members.put, same, WellFormedMembers, wellFormed, rest.2]
      · simp [Members.put, same, WellFormedMembers, rest.1, ih rest.2]

/-- An object built from well-formed fields is well-formed, whatever names repeat. -/
theorem wellFormed_ofPairs {pairs : List (String × Field)}
    (wellFormed : ∀ pair ∈ pairs, pair.2.WellFormed) : (ofPairs pairs).WellFormed := by
  refine ⟨Members.names_ofPairs_nodup pairs, ?_⟩
  suffices general : ∀ members : List (String × Field), WellFormedMembers members →
      WellFormedMembers
        (pairs.foldl (fun members pair => Members.put pair.1 pair.2 members) members) by
    exact general [] (by simp [WellFormedMembers])
  induction pairs with
  | nil => exact fun _ initial => initial
  | cons pair rest ih =>
      exact fun members initial =>
        ih (fun other member => wellFormed other (by simp [member])) _
          (wellFormedMembers_put (wellFormed pair (by simp)) initial)

end Field

end JsonShape
