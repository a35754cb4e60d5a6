import JsonShape.Schema.Basic

/-!
# What a schema accepts

`Field.accepts` walks a schema along a value that may be absent:

* `null` is accepted by nullable nodes alone, and an absent value by optional ones alone;
* a leaf accepts the values of its type;
* an object node accepts the objects whose members are accepted by the fields declared for them,
  where a member that is missing counts as an absent value.

Members that are not declared are either ignored or rejected, at every object node alike.
-/

namespace JsonShape

/-- What an object node does with members that it does not declare. -/
inductive UnknownKeys
  | ignore
  | reject
  deriving Repr, DecidableEq

/-- Whether members with the given names may stand where `declared` names are declared. -/
def UnknownKeys.admits (mode : UnknownKeys) (declared given : List String) : Bool :=
  match mode with
  | .ignore => true
  | .reject => given.all (· ∈ declared)

theorem UnknownKeys.admits_iff {mode : UnknownKeys} {declared given : List String} :
    mode.admits declared given = true ↔ (mode = .reject → ∀ name ∈ given, name ∈ declared) := by
  cases mode <;> simp [admits]

namespace Field

mutual

/-- Whether a field accepts a value, or the absence of one. -/
def accepts (mode : UnknownKeys) : Field → Option Json → Bool
  | .leaf _ flags, none => flags.optional
  | .leaf _ flags, some .null => flags.nullable
  | .leaf type _, some value => type.kind.includes value
  | .object _ flags, none => flags.optional
  | .object _ flags, some .null => flags.nullable
  | .object members _, some (.object given) =>
      acceptsMembers mode members given &&
        mode.admits (Members.names members) (Members.names given)
  | .object _ _, some _ => false

def acceptsMembers (mode : UnknownKeys) : List (String × Field) → List (String × Json) → Bool
  | [], _ => true
  | (name, field) :: rest, given =>
      accepts mode field (given.lookup name) && acceptsMembers mode rest given

end

theorem accepts_none (mode : UnknownKeys) (field : Field) :
    field.accepts mode none = field.flags.optional := by
  cases field <;> rw [accepts, flags]

theorem accepts_null (mode : UnknownKeys) (field : Field) :
    field.accepts mode (some .null) = field.flags.nullable := by
  cases field <;> rw [accepts, flags]

/-- Beside `null`, a field accepts values of its kind alone. -/
theorem includes_of_accepts {mode : UnknownKeys} {field : Field} {value : Json}
    (accepted : field.accepts mode (some value) = true) (notNull : value ≠ .null) :
    field.kind.includes value = true := by
  cases field with
  | leaf type flags =>
      rw [accepts] at accepted
      · exact accepted
      · exact notNull
  | object members flags =>
      cases value with
      | null => exact absurd rfl notNull
      | object given => rfl
      | bool | number | string | array => simp [accepts] at accepted

theorem acceptsMembers_iff {mode : UnknownKeys} {members : List (String × Field)}
    {given : List (String × Json)} :
    acceptsMembers mode members given = true ↔
      ∀ member ∈ members, member.2.accepts mode (given.lookup member.1) = true := by
  induction members with
  | nil => simp [acceptsMembers]
  | cons member rest ih => simp [acceptsMembers, ih]

theorem accepts_object_iff {mode : UnknownKeys} {members : List (String × Field)} {flags : Flags}
    {given : List (String × Json)} :
    (object members flags).accepts mode (some (.object given)) = true ↔
      (∀ member ∈ members, member.2.accepts mode (given.lookup member.1) = true) ∧
        (mode = .reject → ∀ name ∈ Members.names given, name ∈ Members.names members) := by
  rw [accepts, Bool.and_eq_true, acceptsMembers_iff, UnknownKeys.admits_iff]

end Field

def Schema.accepts (mode : UnknownKeys) (schema : Schema) (value : Option Json) : Bool :=
  schema.toField.accepts mode value

end JsonShape
