import JsonShape.Check.Expr
import JsonShape.Json.Quoted
import JsonShape.Schema.Validation

/-!
# Schemas as check expressions

`Field.emit` writes the check expression that accepts what a field accepts, for the value that a
path leads to. Each member is bound once, to a name that counts the object nodes around it, so
that the text of a node does not repeat the path to it. Nothing of a schema but its flags and its
names is written, and names are always written as JSON string literals.
-/

namespace JsonShape

namespace Field

def guarded (path : String) (flags : Flags) (body : String) : String :=
  "(" ++ path ++ " === null ? " ++ toString flags.nullable ++ " : (" ++ path ++
    " === undefined ? " ++ toString flags.optional ++ " : (" ++ body ++ ")))"

def typeCheck (path : String) (kind : Json.Kind) : String :=
  "typeof " ++ path ++ " === " ++ Json.Quoted.encode kind.spelling

/-- The name to which a member is bound inside `depth` object nodes. -/
def memberName (depth : Nat) : String :=
  "v" ++ toString depth

/-- The names that `onlyKeys` lists behind its path. -/
def listedNames : List String → String
  | [] => ""
  | name :: rest => ", " ++ Json.Quoted.encode name ++ listedNames rest

def unknownCheck (mode : UnknownKeys) (path : String) (declared : List String) : String :=
  match mode with
  | .ignore => ""
  | .reject => " && onlyKeys(" ++ path ++ listedNames declared ++ ")"

mutual

/-- The check expression of a field inside `depth` object nodes for the value at a path. -/
def emitAt (mode : UnknownKeys) (path : String) (depth : Nat) : Field → String
  | .leaf type flags => guarded path flags (typeCheck path type.kind)
  | .object members flags =>
      guarded path flags
        (typeCheck path .object ++ emitMembers mode path (depth + 1) members ++
          unknownCheck mode path (Members.names members))

/-- The checks of declared fields, whose members stand inside `depth` object nodes. -/
def emitMembers (mode : UnknownKeys) (path : String) (depth : Nat) :
    List (String × Field) → String
  | [] => ""
  | (name, field) :: rest =>
      " && (!(" ++ Json.Quoted.encode name ++ " in " ++ path ++ ") ? " ++
        toString field.flags.optional ++ " : (let " ++ memberName depth ++ " = " ++ path ++ "[" ++
        Json.Quoted.encode name ++ "] in (" ++ emitAt mode (memberName depth) depth field ++
        ")))" ++ emitMembers mode path depth rest

end

theorem emitMembers_cons (mode : UnknownKeys) (path : String) (depth : Nat) (name : String)
    (field : Field) (rest : List (String × Field)) :
    emitMembers mode path depth ((name, field) :: rest) =
      " && (!(" ++ Json.Quoted.encode name ++ " in " ++ path ++ ") ? " ++
        toString field.flags.optional ++ " : (let " ++ memberName depth ++ " = " ++ path ++ "[" ++
        Json.Quoted.encode name ++ "] in (" ++ emitAt mode (memberName depth) depth field ++
        ")))" ++ emitMembers mode path depth rest := rfl

def emit (mode : UnknownKeys) (path : String) (field : Field) : String :=
  field.emitAt mode path 0

end Field

def Schema.emit (mode : UnknownKeys) (schema : Schema) : String :=
  schema.toField.emit mode Check.rootName

end JsonShape
