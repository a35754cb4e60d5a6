import Mathlib.Algebra.GroupWithZero.Nat
import JsonShape.Proofs.Schema.Tokens

/-!
# The length of an emitted text

A member is bound to a short name before its check is written, so that the check speaks of it by
this name and not by the path to it. A declared field therefore adds a bounded amount to the text,
which counts what the node around it says about it and what it says about itself: besides its own
name, which is written three times, it depends only on the digits of the number that the bound
names end in (`Schema.utf8ByteSize_emit_le`).
-/

namespace JsonShape

namespace Field

mutual

/-- The fields declared anywhere inside a field that stands inside `depth` object nodes: the number
of object nodes around each, and its name. -/
def declarations (depth : Nat) : Field → List (Nat × String)
  | .leaf _ _ => []
  | .object members _ => declarationsIn (depth + 1) members

def declarationsIn (depth : Nat) : List (String × Field) → List (Nat × String)
  | [] => []
  | (name, field) :: rest =>
      (depth, name) :: (declarations depth field ++ declarationsIn depth rest)

end

/-- The number of bytes that a declared field may add to the text, given the number of object nodes
around it and its name. -/
def allowance : Nat × String → Nat
  | (depth, name) =>
      160 + 8 * (Nat.toDigits 10 depth).length + 3 * (Json.Quoted.encode name).utf8ByteSize

/-! ### Pieces of the text -/

theorem length_toDigits_le {first second : Nat} (le : first ≤ second) :
    (Nat.toDigits 10 first).length ≤ (Nat.toDigits 10 second).length := by
  have positive : 0 < (Nat.toDigits 10 second).length := Nat.length_toDigits_pos
  have below := (Nat.length_toDigits_le_iff (by decide) positive).mp (Nat.le_refl _)
  exact (Nat.length_toDigits_le_iff (by decide) positive).mpr (Nat.lt_of_le_of_lt le below)

theorem utf8ByteSize_memberName (depth : Nat) :
    (memberName depth).utf8ByteSize = (Nat.toDigits 10 depth).length + 1 := by
  have parts : ∀ character ∈ 'v' :: Nat.toDigits 10 depth, Check.Token.isWordPart character := by
    intro character member
    rcases List.mem_cons.mp member with rfl | digit
    · decide
    · exact isWordPart_of_mem_toDigits digit
  rw [← @String.ofList_toList (memberName depth), Text.utf8ByteSize_ofList, toList_memberName,
    Check.Token.byteCount_eq_length parts, List.length_cons]

theorem utf8ByteSize_toString_le (value : Bool) : (toString value).utf8ByteSize ≤ 5 := by
  cases value <;> decide

theorem utf8ByteSize_guarded_le (path : String) (flags : Flags) (body : String) :
    (guarded path flags body).utf8ByteSize ≤
      51 + 2 * path.utf8ByteSize + body.utf8ByteSize := by
  have nullable := utf8ByteSize_toString_le flags.nullable
  have optional := utf8ByteSize_toString_le flags.optional
  have fixed : "(".utf8ByteSize = 1 ∧ " === null ? ".utf8ByteSize = 12 ∧
      " : (".utf8ByteSize = 4 ∧ " === undefined ? ".utf8ByteSize = 17 ∧
      ")))".utf8ByteSize = 3 := by decide
  change ("(" ++ path ++ " === null ? " ++ toString flags.nullable ++ " : (" ++ path ++
    " === undefined ? " ++ toString flags.optional ++ " : (" ++ body ++ ")))").utf8ByteSize ≤ _
  simp only [String.utf8ByteSize_append]
  omega

theorem utf8ByteSize_typeCheck (path : String) (kind : Json.Kind) :
    (typeCheck path kind).utf8ByteSize = 20 + path.utf8ByteSize := by
  have spelled : (Json.Quoted.encode kind.spelling).utf8ByteSize = 8 := by
    cases kind <;> decide
  have fixed : "typeof ".utf8ByteSize = 7 ∧ " === ".utf8ByteSize = 5 := by decide
  simp only [typeCheck, String.utf8ByteSize_append]
  omega

theorem utf8ByteSize_unknownCheck_le (mode : UnknownKeys) (path : String)
    (declared : List String) :
    (unknownCheck mode path declared).utf8ByteSize ≤
      14 + path.utf8ByteSize + (listedNames declared).utf8ByteSize := by
  cases mode with
  | ignore => exact Nat.zero_le _
  | reject =>
      have fixed : " && onlyKeys(".utf8ByteSize = 13 ∧ ")".utf8ByteSize = 1 := by decide
      change (" && onlyKeys(" ++ path ++ listedNames declared ++ ")").utf8ByteSize ≤ _
      simp only [String.utf8ByteSize_append]
      omega

theorem utf8ByteSize_listedNames_cons (name : String) (rest : List String) :
    (listedNames (name :: rest)).utf8ByteSize =
      2 + (Json.Quoted.encode name).utf8ByteSize + (listedNames rest).utf8ByteSize := by
  simp only [listedNames, String.utf8ByteSize_append]
  rfl

/-- What is written for one declared field, around its own check. -/
theorem utf8ByteSize_memberCheck_le (path : String) (name : String) (optional : Bool) (depth : Nat)
    (inner : String) :
    (" && (!(" ++ Json.Quoted.encode name ++ " in " ++ path ++ ") ? " ++ toString optional ++
        " : (let " ++ memberName depth ++ " = " ++ path ++ "[" ++ Json.Quoted.encode name ++
        "] in (" ++ inner ++ ")))").utf8ByteSize ≤
      42 + 2 * (Json.Quoted.encode name).utf8ByteSize + 2 * path.utf8ByteSize +
        (Nat.toDigits 10 depth).length + inner.utf8ByteSize := by
  have flag := utf8ByteSize_toString_le optional
  have fixed : " && (!(".utf8ByteSize = 7 ∧ " in ".utf8ByteSize = 4 ∧ ") ? ".utf8ByteSize = 4 ∧
      " : (let ".utf8ByteSize = 8 ∧ " = ".utf8ByteSize = 3 ∧ "[".utf8ByteSize = 1 ∧
      "] in (".utf8ByteSize = 6 ∧ ")))".utf8ByteSize = 3 := by decide
  simp only [String.utf8ByteSize_append, utf8ByteSize_memberName]
  omega

/-! ### Whole texts -/

mutual

/-- The text of a node, whose path is no longer than a bound name or the name of the root. -/
theorem utf8ByteSize_emitAt_le (mode : UnknownKeys) : (field : Field) →
    ∀ (path : String) (depth : Nat),
      path.utf8ByteSize ≤ 4 + (Nat.toDigits 10 (depth + 1)).length →
      (emitAt mode path depth field).utf8ByteSize ≤
        85 + 4 * path.utf8ByteSize + ((declarations depth field).map allowance).sum
  | .leaf type flags, path, depth, _ => by
      have whole : (emitAt mode path depth (.leaf type flags)).utf8ByteSize ≤ _ :=
        utf8ByteSize_guarded_le path flags (typeCheck path type.kind)
      rw [utf8ByteSize_typeCheck] at whole
      omega
  | .object members flags, path, depth, short => by
      have whole : (emitAt mode path depth (.object members flags)).utf8ByteSize ≤ _ :=
        utf8ByteSize_guarded_le path flags
          (typeCheck path .object ++ emitMembers mode path (depth + 1) members ++
            unknownCheck mode path (Members.names members))
      rw [String.utf8ByteSize_append, String.utf8ByteSize_append, utf8ByteSize_typeCheck] at whole
      have unknown := utf8ByteSize_unknownCheck_le mode path (Members.names members)
      have inside := utf8ByteSize_emitMembers_le mode members path (depth + 1) short
      rw [declarations]
      omega

/-- The checks of declared fields, together with their names in the check of unknown members. -/
theorem utf8ByteSize_emitMembers_le (mode : UnknownKeys) : (members : List (String × Field)) →
    ∀ (path : String) (depth : Nat),
      path.utf8ByteSize ≤ 4 + (Nat.toDigits 10 depth).length →
      (emitMembers mode path depth members).utf8ByteSize +
          (listedNames (Members.names members)).utf8ByteSize ≤
        ((declarationsIn depth members).map allowance).sum
  | [], _, _, _ => Nat.le_refl 0
  | (name, field) :: rest, path, depth, short => by
      have longer := length_toDigits_le (show depth ≤ depth + 1 by omega)
      have bound : (memberName depth).utf8ByteSize ≤
          4 + (Nat.toDigits 10 (depth + 1)).length := by
        rw [utf8ByteSize_memberName]
        omega
      have inside := utf8ByteSize_emitAt_le mode field (memberName depth) depth bound
      rw [utf8ByteSize_memberName] at inside
      have first := utf8ByteSize_memberCheck_le path name field.flags.optional depth
        (emitAt mode (memberName depth) depth field)
      have later := utf8ByteSize_emitMembers_le mode rest path depth short
      rw [emitMembers_cons, String.utf8ByteSize_append, Members.names_cons,
        utf8ByteSize_listedNames_cons, declarationsIn, List.map_cons, List.sum_cons,
        List.map_append, List.sum_append, allowance]
      omega

end

end Field

/-- The text of a schema takes at most 110 bytes for the root, and for each declared field the
allowance that its own name and the digits of its depth determine. Nothing is added for the names
above a field, nor for the number of levels or fields around it. -/
theorem Schema.utf8ByteSize_emit_le (mode : UnknownKeys) (schema : Schema) :
    (schema.emit mode).utf8ByteSize ≤
      110 + ((schema.toField.declarations 0).map Field.allowance).sum := by
  have rootSize : Check.rootName.utf8ByteSize = 5 := by decide
  have oneDigit : (Nat.toDigits 10 (0 + 1)).length = 1 := by decide
  have short : Check.rootName.utf8ByteSize ≤ 4 + (Nat.toDigits 10 (0 + 1)).length := by omega
  have whole : (schema.emit mode).utf8ByteSize ≤ _ :=
    Field.utf8ByteSize_emitAt_le mode schema.toField Check.rootName 0 short
  rw [rootSize] at whole
  omega

end JsonShape
