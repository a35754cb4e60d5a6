import JsonShape.Json.Basic

/-!
# Kinds of JSON values

Schemas tell strings, numbers and objects apart. All other values are of no kind that a schema can
ask for.
-/

namespace JsonShape

namespace Json

/-- The kinds of values that a schema or a test can ask for. -/
inductive Kind
  | string
  | number
  | object
  deriving Repr, DecidableEq

namespace Kind

def spelling : Kind → String
  | .string => "string"
  | .number => "number"
  | .object => "object"

def ofSpelling? (name : String) : Option Kind :=
  [Kind.string, .number, .object].find? fun kind => kind.spelling = name

@[simp]
theorem ofSpelling?_spelling (kind : Kind) : ofSpelling? kind.spelling = some kind := by
  cases kind <;> decide

theorem ofSpelling?_eq_some_iff {name : String} {kind : Kind} :
    ofSpelling? name = some kind ↔ name = kind.spelling := by
  constructor
  · intro found
    rw [ofSpelling?] at found
    have spelled := List.find?_some found
    exact (of_decide_eq_true spelled).symm
  · intro spelled
    rw [spelled, ofSpelling?_spelling]

def includes : Kind → Json → Bool
  | .string, .string _ => true
  | .number, .number _ => true
  | .object, .object _ => true
  | _, _ => false

/-- A value is of one kind at most. -/
theorem eq_of_includes {first second : Kind} {value : Json} (inFirst : first.includes value = true)
    (inSecond : second.includes value = true) : first = second := by
  cases value <;> cases first <;> cases inFirst <;> cases second <;> cases inSecond <;> rfl

end Kind

end Json

end JsonShape
