import JsonShape.Text.Utf8

/-!
# Slices of texts

`Text.bytes` is the UTF-8 form of a text, and positions in a text count bytes. A text can be cut only
between two characters (`cut?_eq_some_iff`), so that a slice exists only if both of its ends are
boundaries.

A byte taken for the character with its number is that character if the byte stands for ASCII. Every
other byte is wide: it is a part of a longer character, and taken alone it is no ASCII character
(`exists_utf8EncodeChar`).
-/

namespace JsonShape

namespace Text

/-- The UTF-8 form of a text. -/
def bytes (text : List Char) : List UInt8 :=
  text.flatMap String.utf8EncodeChar

/-- The parts of a text in front of a position and behind it. -/
def cut? : Nat → List Char → Option (List Char × List Char)
  | 0, text => some ([], text)
  | _ + 1, [] => none
  | position + 1, character :: rest =>
      if character.utf8Size ≤ position + 1 then
        (cut? (position + 1 - character.utf8Size) rest).map fun parts =>
          (character :: parts.1, parts.2)
      else none

/-- The part of a text that begins at a position and takes a number of bytes. -/
def slice? (text : List Char) (start length : Nat) : Option (List Char) :=
  (cut? start text).bind fun parts => (cut? length parts.2).map Prod.fst

/-- The position lies between two characters, or at an end of the text. -/
def IsBoundary (text : List Char) (position : Nat) : Prop :=
  ∃ head tail, text = head ++ tail ∧ byteCount head = position

/-- The byte stands for no ASCII character. -/
def IsWide (byte : UInt8) : Prop :=
  (Char.ofUInt8 byte).utf8Size ≠ 1

@[simp]
theorem bytes_nil : bytes [] = [] := rfl

@[simp]
theorem bytes_cons (character : Char) (rest : List Char) :
    bytes (character :: rest) = String.utf8EncodeChar character ++ bytes rest := rfl

@[simp]
theorem bytes_append (first second : List Char) :
    bytes (first ++ second) = bytes first ++ bytes second :=
  List.flatMap_append

@[simp]
theorem length_bytes (text : List Char) : (bytes text).length = byteCount text := by
  induction text with
  | nil => rfl
  | cons character rest ih =>
      rw [bytes_cons, List.length_append, String.length_utf8EncodeChar, ih, byteCount_cons]

/-- These are the bytes that a string is stored in. -/
theorem toByteArray_ofList (text : List Char) :
    (String.ofList text).toByteArray = (bytes text).toByteArray := rfl

theorem cut?_eq_some_iff {position : Nat} {text head tail : List Char} :
    cut? position text = some (head, tail) ↔ text = head ++ tail ∧ byteCount head = position := by
  fun_induction cut? position text generalizing head with
  | case1 text =>
      cases head with
      | nil => simp [eq_comm]
      | cons character rest =>
          have positive := character.utf8Size_pos
          simp only [Option.some.injEq, Prod.mk.injEq, byteCount_cons]
          constructor
          · rintro ⟨⟨⟩, -⟩
          · rintro ⟨-, empty⟩
            omega
  | case2 position =>
      constructor
      · nofun
      · rintro ⟨split, count⟩
        rw [(List.append_eq_nil_iff.mp split.symm).1] at count
        cases count
  | case3 position character rest fits ih =>
      simp only [Option.map_eq_some_iff, Prod.exists, Prod.mk.injEq]
      constructor
      · rintro ⟨before, after, found, rfl, rfl⟩
        rcases ih.mp found with ⟨rfl, count⟩
        refine ⟨rfl, ?_⟩
        rw [byteCount_cons]
        omega
      · rintro ⟨split, count⟩
        cases head with
        | nil => cases count
        | cons first before =>
            cases split
            rw [byteCount_cons] at count
            exact ⟨before, tail, ih.mpr ⟨rfl, by omega⟩, rfl, rfl⟩
  | case4 position character rest tooWide =>
      constructor
      · nofun
      · rintro ⟨split, count⟩
        cases head with
        | nil => cases count
        | cons first before =>
            cases split
            rw [byteCount_cons] at count
            omega

theorem cut?_append (head tail : List Char) :
    cut? (byteCount head) (head ++ tail) = some (head, tail) :=
  cut?_eq_some_iff.mpr ⟨rfl, rfl⟩

theorem slice?_append (before middle after : List Char) :
    slice? (before ++ (middle ++ after)) (byteCount before) (byteCount middle) = some middle := by
  rw [slice?, cut?_append, Option.bind_some, cut?_append]
  rfl

theorem isWide_iff {byte : UInt8} : IsWide byte ↔ 128 ≤ byte.toNat := by
  have value : (Char.ofUInt8 byte).val.toNat = byte.toNat := UInt8.toNat_toUInt32 byte
  rw [IsWide, Ne, Char.utf8Size_eq_one_iff, UInt32.le_iff_toNat_le, value]
  change ¬byte.toNat ≤ 127 ↔ _
  omega

theorem exists_byte_of_ascii {character : Char} (ascii : character.utf8Size = 1) :
    ∃ byte, String.utf8EncodeChar character = [byte] ∧ Char.ofUInt8 byte = character := by
  refine ⟨character.val.toUInt8, String.utf8EncodeChar_eq_singleton ascii, ?_⟩
  have small : character.val.toNat ≤ 127 :=
    UInt32.le_iff_toNat_le.mp (Char.utf8Size_eq_one_iff.mp ascii)
  apply Char.ext
  apply UInt32.toNat_inj.mp
  change character.val.toUInt8.toUInt32.toNat = character.val.toNat
  rw [UInt8.toNat_toUInt32, UInt32.toNat_toUInt8]
  omega

theorem isWide_of_mem {character : Char} (long : character.utf8Size ≠ 1) {byte : UInt8}
    (member : byte ∈ String.utf8EncodeChar character) : IsWide byte := by
  rw [isWide_iff]
  rw [← String.length_utf8EncodeChar] at long
  revert long member
  fun_cases String.utf8EncodeChar character
  · intro long
    exact absurd rfl long
  -- A leading byte is at least 0xc0, and each of the bytes behind it at least 0x80.
  all_goals
    intro long member
    simp only [List.mem_cons, List.not_mem_nil, or_false] at member
    rcases member with rfl | rfl | rfl | rfl
    <;> rw [UInt8.toNat_ofNat']
    <;> omega

/-- An ASCII character is a single byte, and all other characters are made of wide bytes. -/
theorem exists_utf8EncodeChar (character : Char) :
    ∃ first later, String.utf8EncodeChar character = first :: later ∧
      (∀ byte ∈ later, IsWide byte) ∧
      (Char.ofUInt8 first = character ∧ later = [] ∨
        IsWide first ∧ character.utf8Size ≠ 1) := by
  by_cases ascii : character.utf8Size = 1
  · rcases exists_byte_of_ascii ascii with ⟨byte, encoded, same⟩
    exact ⟨byte, [], encoded, by simp, .inl ⟨same, rfl⟩⟩
  · cases encoded : String.utf8EncodeChar character with
    | nil => exact absurd encoded String.utf8EncodeChar_ne_nil
    | cons first later =>
        have wide {byte : UInt8} (member : byte ∈ first :: later) : IsWide byte :=
          isWide_of_mem ascii (encoded ▸ member)
        exact ⟨first, later, rfl, fun byte member => wide (List.mem_cons_of_mem _ member),
          .inr ⟨wide List.mem_cons_self, ascii⟩⟩

end Text

end JsonShape
