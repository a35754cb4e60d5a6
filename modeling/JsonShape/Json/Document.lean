import JsonShape.Json.Token

/-!
# JSON texts as far as they can be read

A `Document` is what a text says up to its first fault. Entries of containers stand in text order
and names may repeat, so that a reader of documents meets problems in the order in which the text
has them. The place of the fault is part of the document: a `broken` node where a value should
stand, or a container whose `Ending` is broken. Behind the fault nothing is known.

`Document.ofText` reads with a stack of the containers that are open, one lexical element at a
time, so nesting is bounded by `limit` alone. A container beyond that limit counts as broken right
behind its opening bracket.

`Json.ofDocument?` keeps the documents without a fault and gives their value: of a name that
repeats the last entry counts, and members are ordered by name.
-/

namespace JsonShape

namespace Json

/-- How a container ends. -/
inductive Ending
  /-- With its closing bracket. -/
  | closed
  /-- With a fault. -/
  | broken (fault : Fault)
  deriving Repr, DecidableEq

/-- A JSON text up to its first fault. -/
inductive Document
  | null
  | bool (value : Bool)
  | number (value : Number)
  | string (value : String)
  | array (items : List Document) (ending : Ending)
  | object (members : List (String × Document)) (ending : Ending)
  /-- No value can be read here. -/
  | broken (fault : Fault)

namespace Document

/-- Where a value stands inside an open container. Entries are given latest first. -/
inductive Frame
  | item (before : List Document)
  | member (before : List (String × Document)) (name : String)

/-- What has been read, and what may follow. Entries are given latest first, and open containers
innermost first. -/
inductive State
  /-- A value must follow. -/
  | value (enclosing : List Frame)
  /-- A value or the closing bracket must follow. -/
  | firstItem (enclosing : List Frame)
  /-- A comma or the closing bracket must follow. -/
  | afterItem (items : List Document) (enclosing : List Frame)
  /-- A name or the closing brace must follow. -/
  | firstName (enclosing : List Frame)
  /-- A name must follow. -/
  | nextName (members : List (String × Document)) (enclosing : List Frame)
  /-- A colon must follow. -/
  | colon (members : List (String × Document)) (name : String) (enclosing : List Frame)
  /-- A comma or the closing brace must follow. -/
  | afterMember (members : List (String × Document)) (enclosing : List Frame)
  /-- Nothing may follow. -/
  | finished (document : Document)

/-- A document, and the fault that stands behind it, if there is one. -/
structure Reading where
  document : Document
  trailing : Option Fault

/-- Puts a complete value in its place. -/
def place (value : Document) : List Frame → State
  | [] => .finished value
  | .item before :: enclosing => .afterItem (value :: before) enclosing
  | .member before name :: enclosing => .afterMember ((name, value) :: before) enclosing

/-- The whole document around a value in which a fault was met. -/
def unwind (fault : Fault) (value : Document) : List Frame → Document
  | [] => value
  | .item before :: enclosing =>
      unwind fault (.array (value :: before).reverse (.broken fault)) enclosing
  | .member before name :: enclosing =>
      unwind fault (.object ((name, value) :: before).reverse (.broken fault)) enclosing

/-- What has been read when a fault follows. -/
def State.abandon (fault : Fault) : State → Reading
  | .value enclosing => ⟨unwind fault (.broken fault) enclosing, none⟩
  | .firstItem enclosing => ⟨unwind fault (.array [] (.broken fault)) enclosing, none⟩
  | .afterItem items enclosing =>
      ⟨unwind fault (.array items.reverse (.broken fault)) enclosing, none⟩
  | .firstName enclosing => ⟨unwind fault (.object [] (.broken fault)) enclosing, none⟩
  | .nextName members enclosing =>
      ⟨unwind fault (.object members.reverse (.broken fault)) enclosing, none⟩
  | .colon members name enclosing =>
      ⟨unwind fault (.broken fault) (.member members name :: enclosing), none⟩
  | .afterMember members enclosing =>
      ⟨unwind fault (.object members.reverse (.broken fault)) enclosing, none⟩
  | .finished document => ⟨document, some fault⟩

/-- What has been read when the text ends: only a finished document may end. -/
def State.ended : State → Reading
  | .finished document => ⟨document, none⟩
  | state => state.abandon .truncated

/-- Whether one more container may be opened. -/
def admits (limit : Option Nat) (enclosing : List Frame) : Bool :=
  limit.all (enclosing.length < ·)

def start (limit : Option Nat) (enclosing : List Frame) : Token → Except Reading State
  | .null => .ok (place .null enclosing)
  | .bool value => .ok (place (.bool value) enclosing)
  | .number value => .ok (place (.number value) enclosing)
  | .string value => .ok (place (.string value) enclosing)
  | .openArray =>
      if admits limit enclosing then .ok (.firstItem enclosing)
      else .error (State.abandon .malformed (.firstItem enclosing))
  | .openObject =>
      if admits limit enclosing then .ok (.firstName enclosing)
      else .error (State.abandon .malformed (.firstName enclosing))
  | .unreadable _ fault => .error (State.abandon fault (.value enclosing))
  | .comma | .colon | .closeArray | .closeObject =>
      .error (State.abandon .malformed (.value enclosing))

/-- Reads a name where one must stand. -/
def startName (members : List (String × Document)) (enclosing : List Frame) :
    Token → Except Reading State
  | .string name => .ok (.colon members name enclosing)
  | .unreadable true fault => .error (State.abandon fault (.nextName members enclosing))
  | _ => .error (State.abandon .malformed (.nextName members enclosing))

/-- Reads one element; the outcome is the whole reading if the element cannot stand where it does.
-/
def State.step (limit : Option Nat) (token : Token) : State → Except Reading State
  | .value enclosing => start limit enclosing token
  | .firstItem enclosing =>
      match token with
      | .closeArray => .ok (place (.array [] .closed) enclosing)
      | token => start limit (.item [] :: enclosing) token
  | .afterItem items enclosing =>
      match token with
      | .comma => .ok (.value (.item items :: enclosing))
      | .closeArray => .ok (place (.array items.reverse .closed) enclosing)
      | _ => .error (State.abandon .malformed (.afterItem items enclosing))
  | .firstName enclosing =>
      match token with
      | .closeObject => .ok (place (.object [] .closed) enclosing)
      | token => startName [] enclosing token
  | .nextName members enclosing => startName members enclosing token
  | .colon members name enclosing =>
      match token with
      | .colon => .ok (.value (.member members name :: enclosing))
      | _ => .error (State.abandon .malformed (.colon members name enclosing))
  | .afterMember members enclosing =>
      match token with
      | .comma => .ok (.nextName members enclosing)
      | .closeObject => .ok (place (.object members.reverse .closed) enclosing)
      | _ => .error (State.abandon .malformed (.afterMember members enclosing))
  | .finished document => .error (State.abandon .malformed (.finished document))

def run (limit : Option Nat) (state : State) : List Token → Reading
  | [] => state.ended
  | token :: rest =>
      match state.step limit token with
      | .ok next => run limit next rest
      | .error reading => reading

/-- Reads a text in which containers are nested at most `limit` deep, if a limit is given. -/
def ofText (limit : Option Nat) (text : String) : Reading :=
  run limit (.value []) (Token.scan text.toList)

mutual

/-- The document of a value, with the members of every object in order of their names. -/
def ofJson : Json → Document
  | .null => .null
  | .bool value => .bool value
  | .number value => .number value
  | .string value => .string value
  | .array items => .array (ofJsonItems items) .closed
  | .object members => .object (Members.sorted (ofJsonMembers members)) .closed

def ofJsonItems : List Json → List Document
  | [] => []
  | item :: rest => ofJson item :: ofJsonItems rest

def ofJsonMembers : List (String × Json) → List (String × Document)
  | [] => []
  | (name, value) :: rest => (name, ofJson value) :: ofJsonMembers rest

end

end Document

mutual

/-- The value of a document without a fault. -/
def ofDocument? : Document → Option Json
  | .null => some .null
  | .bool value => some (.bool value)
  | .number value => some (.number value)
  | .string value => some (.string value)
  | .array items .closed => (ofDocumentItems? items).map .array
  | .object members .closed =>
      (ofDocumentMembers? members).map fun members => .object (Members.sorted members)
  | .array _ (.broken _) | .object _ (.broken _) | .broken _ => none

def ofDocumentItems? : List Document → Option (List Json)
  | [] => some []
  | item :: rest =>
      match ofDocument? item, ofDocumentItems? rest with
      | some item, some rest => some (item :: rest)
      | _, _ => none

def ofDocumentMembers? : List (String × Document) → Option (List (String × Json))
  | [] => some []
  | (name, value) :: rest =>
      match ofDocument? value, ofDocumentMembers? rest with
      | some value, some rest => some ((name, value) :: rest)
      | _, _ => none

end

end Json

end JsonShape
