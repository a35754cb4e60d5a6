import JsonShape.Description.Basic
import JsonShape.Json.Document

/-!
# Reading descriptions

A description is read from a JSON document, either of a text or of a value. It is an object with
the keys `type`, `fields`, `isNullable` and `isOptional`, of which only the first is needed, or an
array of exactly four values for those keys in that order. Where a value may be left out, `null`
says the same.

The first problem decides, in the order of the document: a key that is unknown or stands there
already is refused before its value is looked at, a value of a wrong type before what it contains,
and a key that is missing only at the end of its object. Inside `fields` a name may repeat, and
its last description counts.

A text may also end or be malformed on the way. What lies behind the four values of an array is
not read in a text, so that it is malformed, while in a value it is known how many values there
are.
-/

namespace JsonShape

namespace Description

inductive Key
  | type
  | fields
  | isNullable
  | isOptional
  deriving Repr, DecidableEq

namespace Key

def spelling : Key → String
  | .type => "type"
  | .fields => "fields"
  | .isNullable => "isNullable"
  | .isOptional => "isOptional"

/-- All keys, in the order in which an array gives their values. -/
def all : List Key :=
  [.type, .fields, .isNullable, .isOptional]

def ofSpelling? (name : String) : Option Key :=
  all.find? fun key => key.spelling = name

end Key

/-- What is asked for at some place of a description. -/
inductive Expected
  | string
  | boolean
  | fields
  | description
  deriving Repr, DecidableEq

def Expected.phrase : Expected → String
  | .string => "a string"
  | .boolean => "a boolean"
  | .fields => "a map"
  | .description => "struct SerdeSchema"

/-- What stands at some place of a document. -/
inductive Found
  | null
  | bool (value : Bool)
  | number (value : Json.Number)
  | string (value : String)
  | array
  | object

def Found.phrase : Found → String
  | .null => "null"
  | .bool value => "boolean `" ++ toString value ++ "`"
  | .number (.integer value) => "integer `" ++ toString value ++ "`"
  | .number (.real value) => "floating point `" ++ (Json.Number.real value).render ++ "`"
  | .string value => "string " ++ Text.quoteString value
  | .array => "sequence"
  | .object => "map"

/-- Why a document without a fault is no description. -/
inductive Problem
  | missingType
  | unknownKey (name : String)
  | repeatedKey (key : Key)
  | wrongType (found : Found) (expected : Expected)
  /-- An array ends after so many values. -/
  | tooFew (count : Nat)
  /-- An array has so many values. -/
  | tooMany (count : Nat)

def Problem.message : Problem → String
  | .missingType => "missing field `type`"
  | .unknownKey name =>
      "unknown field `" ++ name ++
        "`, expected one of `type`, `fields`, `isNullable`, `isOptional`"
  | .repeatedKey key => "duplicate field `" ++ key.spelling ++ "`"
  | .wrongType found expected =>
      "invalid type: " ++ found.phrase ++ ", expected " ++ expected.phrase
  | .tooFew count =>
      "invalid length " ++ toString count ++ ", expected struct SerdeSchema with 4 elements"
  | .tooMany count =>
      "invalid length " ++ toString count ++ ", expected fewer elements in array"

/-- Why no description can be read. -/
inductive ReadError
  /-- The document is no description. -/
  | problem (problem : Problem)
  /-- The text is no JSON text. -/
  | fault (fault : Json.Fault)

/-- What a document was made from. -/
inductive Source
  | text
  | value
  deriving Repr, DecidableEq

/-- The keys that have been read. A key may be given as `null`. -/
structure Partial where
  typeName : Option String := none
  fields : Option (Option (List (String × Description))) := none
  isNullable : Option (Option Bool) := none
  isOptional : Option (Option Bool) := none

namespace Partial

def has (known : Partial) : Key → Bool
  | .type => known.typeName.isSome
  | .fields => known.fields.isSome
  | .isNullable => known.isNullable.isSome
  | .isOptional => known.isOptional.isSome

/-- The description, unless its type is missing. -/
def complete (known : Partial) : Except ReadError Description :=
  match known.typeName with
  | none => .error (.problem .missingType)
  | some typeName =>
      .ok (.node typeName known.fields.join known.isNullable.join known.isOptional.join)

end Partial

/-- The error at a place where something else is asked for. -/
def refuse (expected : Expected) : Json.Document → ReadError
  | .null => .problem (.wrongType .null expected)
  | .bool value => .problem (.wrongType (.bool value) expected)
  | .number value => .problem (.wrongType (.number value) expected)
  | .string value => .problem (.wrongType (.string value) expected)
  | .array _ _ => .problem (.wrongType .array expected)
  | .object _ _ => .problem (.wrongType .object expected)
  | .broken fault => .fault fault

def readString : Json.Document → Except ReadError String
  | .string value => .ok value
  | document => .error (refuse .string document)

/-- Reads a flag, which may be left out. -/
def readFlag : Json.Document → Except ReadError (Option Bool)
  | .null => .ok none
  | .bool value => .ok (some value)
  | document => .error (refuse .boolean document)

/-- What follows when a container ends: a fault is an error. -/
def atEnd {Result : Type} (ending : Json.Ending) (result : Except ReadError Result) :
    Except ReadError Result :=
  match ending with
  | .closed => result
  | .broken fault => .error (.fault fault)

mutual

def read (source : Source) : Json.Document → Except ReadError Description
  | .object members ending => readMembers source {} members ending
  | .array items ending => readItems source {} Key.all items ending
  | .null => .error (refuse .description .null)
  | .bool value => .error (refuse .description (.bool value))
  | .number value => .error (refuse .description (.number value))
  | .string value => .error (refuse .description (.string value))
  | .broken fault => .error (.fault fault)

def readMembers (source : Source) (known : Partial) :
    List (String × Json.Document) → Json.Ending → Except ReadError Description
  | [], ending => atEnd ending known.complete
  | (name, document) :: rest, ending =>
      match Key.ofSpelling? name with
      | none => .error (.problem (.unknownKey name))
      | some key =>
          if known.has key then .error (.problem (.repeatedKey key))
          else
            match readKey source known key document with
            | .error error => .error error
            | .ok known => readMembers source known rest ending

/-- Reads the values of an array, which are given for some keys. -/
def readItems (source : Source) (known : Partial) :
    List Key → List Json.Document → Json.Ending → Except ReadError Description
  | [], [], ending => atEnd ending known.complete
  | [], extra :: rest, _ =>
      match source with
      | .text => .error (.fault .malformed)
      | .value => .error (.problem (.tooMany (Key.all.length + (extra :: rest).length)))
  | key :: keys, [], ending =>
      atEnd ending (.error (.problem (.tooFew (Key.all.length - (key :: keys).length))))
  | key :: keys, document :: rest, ending =>
      match readKey source known key document with
      | .error error => .error error
      | .ok known => readItems source known keys rest ending

/-- Reads the value of a key. -/
def readKey (source : Source) (known : Partial) (key : Key) (document : Json.Document) :
    Except ReadError Partial :=
  match key with
  | .type => (readString document).map fun value => { known with typeName := some value }
  | .isNullable => (readFlag document).map fun value => { known with isNullable := some value }
  | .isOptional => (readFlag document).map fun value => { known with isOptional := some value }
  | .fields =>
      match document with
      | .null => .ok { known with fields := some none }
      | .object members ending =>
          match readFields source members ending with
          | .error error => .error error
          | .ok fields => .ok { known with fields := some (some (Members.sorted fields)) }
      | .bool value => .error (refuse .fields (.bool value))
      | .number value => .error (refuse .fields (.number value))
      | .string value => .error (refuse .fields (.string value))
      | .array items ending => .error (refuse .fields (.array items ending))
      | .broken fault => .error (.fault fault)

/-- Reads the named descriptions of `fields`, in the order of the document. -/
def readFields (source : Source) :
    List (String × Json.Document) → Json.Ending →
      Except ReadError (List (String × Description))
  | [], ending => atEnd ending (.ok [])
  | (name, document) :: rest, ending =>
      match read source document with
      | .error error => .error error
      | .ok description =>
          match readFields source rest ending with
          | .error error => .error error
          | .ok rest => .ok ((name, description) :: rest)

end

/-- How deep containers may be nested in a text. -/
def nestingLimit : Nat := 127

def ofText (text : String) : Except ReadError Description :=
  match Json.Document.ofText (some nestingLimit) text with
  | ⟨document, trailing⟩ =>
      match read .text document with
      | .error error => .error error
      | .ok description =>
          match trailing with
          | none => .ok description
          | some fault => .error (.fault fault)

def ofJson (value : Json) : Except ReadError Description :=
  read .value (Json.Document.ofJson value)

end Description

end JsonShape
