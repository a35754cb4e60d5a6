import JsonShape.Members

/-!
# JSON values

Objects are lists of named members. A list may repeat a name, but no reader of this library builds
such a value: `Json.WellFormed` says that every object inside a value has distinct names. A member
is looked up by its first entry.

Numbers keep what JSON texts can tell apart: integers of 64 bits exactly, all other numbers as the
nearest double. Minus zero is a double, because no integer is minus zero.
-/

namespace JsonShape

inductive Json.Number
  /-- An integer between `-2^63` and `2^64 - 1`. -/
  | integer (value : Int)
  /-- Any other number, and every number written with a fraction or an exponent. -/
  | real (value : Float)

inductive Json
  | null
  | bool (value : Bool)
  | number (value : Json.Number)
  | string (value : String)
  | array (items : List Json)
  | object (members : List (String × Json))
  deriving Inhabited

namespace Json

/-- The members of an object; other values have none to offer. -/
def members? : Json → Option (List (String × Json))
  | .object members => some members
  | _ => none

/-- The member of an object with a given name. Values that are not objects have no members. -/
def member? (value : Json) (name : String) : Option Json :=
  value.members?.bind (List.lookup name)

/-- The names that an object has; a value that is not an object has none. -/
def memberNames (value : Json) : List String :=
  Members.names (value.members?.getD [])

@[simp]
theorem members?_object (members : List (String × Json)) :
    (Json.object members).members? = some members := rfl

@[simp]
theorem member?_object (members : List (String × Json)) (name : String) :
    (Json.object members).member? name = members.lookup name := rfl

mutual

/-- Every object inside the value has distinct member names. -/
def WellFormed : Json → Prop
  | .null | .bool _ | .number _ | .string _ => True
  | .array items => WellFormedItems items
  | .object members => (Members.names members).Nodup ∧ WellFormedMembers members

def WellFormedItems : List Json → Prop
  | [] => True
  | item :: rest => WellFormed item ∧ WellFormedItems rest

def WellFormedMembers : List (String × Json) → Prop
  | [] => True
  | (_, value) :: rest => WellFormed value ∧ WellFormedMembers rest

end

theorem wellFormedMembers_iff {members : List (String × Json)} :
    WellFormedMembers members ↔ ∀ member ∈ members, member.2.WellFormed := by
  induction members with
  | nil => simp [WellFormedMembers]
  | cons member rest ih => simp [WellFormedMembers, ih]

end Json

end JsonShape
