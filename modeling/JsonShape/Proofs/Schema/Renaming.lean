import Mathlib.Data.List.Forall2
import JsonShape.Proofs.Schema.Emission

/-!
# Names stay inside their literals

Where a field is another one with other declared names, `Field.renaming?` pairs each name with the
name that stands in its place. The emitted texts of such fields are split into equally many tokens,
which differ in nothing but the strings that carry these names, whatever the names are. So no name
can add to the text anything but itself.
-/

namespace JsonShape

open Check

/-- The tokens are the same, or strings that carry a name and the name that stands in its place. -/
def Check.Token.Renamed (pairs : List (String × String)) (first second : Token) : Prop :=
  first = second ∨ ∃ pair ∈ pairs, first = .text pair.1 ∧ second = .text pair.2

/-- The tokens differ by renaming alone, and each pair of names stands at some place. -/
structure Check.Token.Renames (pairs : List (String × String)) (tokens others : List Token) :
    Prop where
  agree : List.Forall₂ (Renamed pairs) tokens others
  occur : ∀ pair ∈ pairs, (Token.text pair.1, Token.text pair.2) ∈ tokens.zip others

namespace Check.Token

theorem Renamed.mono {pairs more : List (String × String)} (included : pairs ⊆ more)
    {first second : Token} (renamed : Renamed pairs first second) : Renamed more first second := by
  rcases renamed with same | ⟨pair, isPair, carried⟩
  · exact .inl same
  · exact .inr ⟨pair, included isPair, carried⟩

namespace Renames

variable {pairs otherPairs : List (String × String)} {tokens others later otherLater : List Token}

theorem same (tokens : List Token) : Renames [] tokens tokens :=
  ⟨List.forall₂_same.mpr fun _ _ => .inl rfl, nofun⟩

theorem text (name other : String) : Renames [(name, other)] [.text name] [.text other] := by
  refine ⟨.cons (.inr ⟨(name, other), List.mem_cons_self, rfl, rfl⟩) .nil, ?_⟩
  intro pair isPair
  rw [List.mem_singleton.mp isPair]
  exact List.mem_cons_self

theorem append (first : Renames pairs tokens others)
    (second : Renames otherPairs later otherLater) :
    Renames (pairs ++ otherPairs) (tokens ++ later) (others ++ otherLater) := by
  refine ⟨?_, ?_⟩
  · apply List.rel_append
    · exact first.agree.imp fun _ _ => Renamed.mono (List.subset_append_left _ _)
    · exact second.agree.imp fun _ _ => Renamed.mono (List.subset_append_right _ _)
  · intro pair isPair
    rw [List.zip_append first.agree.length_eq, List.mem_append]
    rcases List.mem_append.mp isPair with isFirst | isSecond
    · exact .inl (first.occur pair isFirst)
    · exact .inr (second.occur pair isSecond)

theorem before (shared : List Token) (renames : Renames pairs tokens others) :
    Renames pairs (shared ++ tokens) (shared ++ others) :=
  (same shared).append renames

theorem after (shared : List Token) (renames : Renames pairs tokens others) :
    Renames pairs (tokens ++ shared) (others ++ shared) := by
  have whole := renames.append (same shared)
  rw [List.append_nil] at whole
  exact whole

theorem congr (renames : Renames pairs tokens others) (forth : pairs ⊆ otherPairs)
    (back : otherPairs ⊆ pairs) : Renames otherPairs tokens others :=
  ⟨renames.agree.imp fun _ _ => Renamed.mono forth, fun pair isPair =>
    renames.occur pair (back isPair)⟩

end Renames

end Check.Token

namespace Field

mutual

/-- The declared names with the names that stand in their places in another field, if the fields
differ in nothing but declared names. -/
def renaming? : Field → Field → Option (List (String × String))
  | .leaf type flags, .leaf otherType otherFlags =>
      if type = otherType ∧ flags = otherFlags then some [] else none
  | .object members flags, .object others otherFlags =>
      if flags = otherFlags then memberRenaming? members others else none
  | .leaf _ _, .object _ _ | .object _ _, .leaf _ _ => none

def memberRenaming? :
    List (String × Field) → List (String × Field) → Option (List (String × String))
  | [], [] => some []
  | (name, field) :: rest, (other, otherField) :: otherRest =>
      match renaming? field otherField, memberRenaming? rest otherRest with
      | some inside, some later => some ((name, other) :: inside ++ later)
      | _, _ => none
  | [], _ :: _ | _ :: _, [] => none

end

variable {field other : Field} {members others : List (String × Field)}
  {pairs : List (String × String)}

theorem renaming?_leaf {type : LeafType} {flags : Flags}
    (renamed : (leaf type flags).renaming? other = some pairs) :
    other = leaf type flags ∧ pairs = [] := by
  cases other with
  | leaf otherType otherFlags =>
      rw [renaming?] at renamed
      split at renamed
      · rename_i same
        cases renamed
        rw [same.1, same.2]
        exact ⟨rfl, rfl⟩
      · cases renamed
  | object others otherFlags => cases renamed

theorem renaming?_object {flags : Flags}
    (renamed : (object members flags).renaming? other = some pairs) :
    ∃ others, other = object others flags ∧ memberRenaming? members others = some pairs := by
  cases other with
  | leaf otherType otherFlags => cases renamed
  | object others otherFlags =>
      rw [renaming?] at renamed
      split at renamed
      · rename_i same
        exact ⟨others, by rw [same], renamed⟩
      · cases renamed

theorem flags_eq_of_renaming? (renamed : field.renaming? other = some pairs) :
    field.flags = other.flags := by
  cases field with
  | leaf type flags => rw [(renaming?_leaf renamed).1]
  | object members flags =>
      rcases renaming?_object renamed with ⟨others, rfl, -⟩
      rfl

theorem memberRenaming?_nil (renamed : memberRenaming? [] others = some pairs) :
    others = [] ∧ pairs = [] := by
  cases others <;> cases renamed
  exact ⟨rfl, rfl⟩

theorem memberRenaming?_cons {name : String}
    (renamed : memberRenaming? ((name, field) :: members) others = some pairs) :
    ∃ other otherField rest inside later, others = (other, otherField) :: rest ∧
      field.renaming? otherField = some inside ∧ memberRenaming? members rest = some later ∧
        pairs = (name, other) :: inside ++ later := by
  cases others with
  | nil => cases renamed
  | cons member rest =>
      rw [memberRenaming?] at renamed
      split at renamed
      · rename_i inside later insideRenamed laterRenamed
        cases renamed
        exact ⟨member.1, member.2, rest, inside, later, rfl, insideRenamed, laterRenamed, rfl⟩
      · cases renamed

section Tokens

variable {path body otherBody : List Token}

theorem renames_guarded (path : List Token) (flags : Flags)
    (renames : Token.Renames pairs body otherBody) :
    Token.Renames pairs (guardedTokens path flags body) (guardedTokens path flags otherBody) :=
  (renames.before _).after _

theorem renames_memberCheck (path : List Token) (name other : String) (optional : Bool)
    (bound : String) (renames : Token.Renames pairs body otherBody) :
    Token.Renames ((name, other) :: pairs) (memberCheckTokens path name optional bound body)
      (memberCheckTokens path other optional bound otherBody) := by
  -- The name stands twice, once where it is tested and once where the member is bound.
  have twice : Token.Renames ([(name, other)] ++ ([(name, other)] ++ pairs))
      (memberCheckTokens path name optional bound body)
      (memberCheckTokens path other optional bound otherBody) := by
    simp only [memberCheckTokens, List.append_assoc]
    apply Token.Renames.before
    apply (Token.Renames.text name other).append
    repeat apply Token.Renames.before
    apply (Token.Renames.text name other).append
    apply Token.Renames.before
    exact renames.after _
  apply twice.congr <;> simp

/-- The names that `onlyKeys` lists are those of the fields, which are paired by the renaming. -/
theorem exists_renames_ofListed (renamed : memberRenaming? members others = some pairs) :
    ∃ listed ⊆ pairs, Token.Renames listed (Token.ofListed (Members.names members))
      (Token.ofListed (Members.names others)) := by
  induction members generalizing others pairs with
  | nil =>
      rcases memberRenaming?_nil renamed with ⟨rfl, rfl⟩
      exact ⟨[], List.Subset.refl _, .same _⟩
  | cons member rest ih =>
      rcases memberRenaming?_cons renamed with
        ⟨other, otherField, otherRest, inside, later, rfl, -, laterRenamed, rfl⟩
      rcases ih laterRenamed with ⟨listed, included, renames⟩
      refine ⟨(member.1, other) :: listed, ?_, ?_⟩
      · apply List.cons_subset_cons
        exact fun pair isPair => List.mem_append_right inside (included isPair)
      · exact ((Token.Renames.text member.1 other).append renames).before [.comma]

theorem renames_unknown (mode : UnknownKeys) (path : List Token)
    (renamed : memberRenaming? members others = some pairs) :
    ∃ listed ⊆ pairs, Token.Renames listed (unknownTokens mode path (Members.names members))
      (unknownTokens mode path (Members.names others)) := by
  cases mode with
  | ignore => exact ⟨[], List.nil_subset _, .same _⟩
  | reject =>
      rcases exists_renames_ofListed renamed with ⟨listed, included, renames⟩
      exact ⟨listed, included, (renames.before _).after _⟩

theorem renames_memberTokens (mode : UnknownKeys)
    (inside : ∀ member ∈ members, ∀ (other : Field) (pairs : List (String × String)),
      member.2.renaming? other = some pairs → ∀ (path : List Token) (depth : Nat),
        Token.Renames pairs (member.2.tokensAt mode path depth) (other.tokensAt mode path depth))
    (renamed : memberRenaming? members others = some pairs) (path : List Token) (depth : Nat) :
    Token.Renames pairs (memberTokens mode path depth members)
      (memberTokens mode path depth others) := by
  induction members generalizing others pairs with
  | nil =>
      rcases memberRenaming?_nil renamed with ⟨rfl, rfl⟩
      exact .same _
  | cons member rest ih =>
      rcases memberRenaming?_cons renamed with
        ⟨other, otherField, otherRest, below, later, rfl, belowRenamed, laterRenamed, rfl⟩
      have checked := inside member List.mem_cons_self otherField below belowRenamed
        [.name (memberName depth)] depth
      have first := renames_memberCheck path member.1 other member.2.flags.optional
        (memberName depth) checked
      have second := ih (fun other isMember => inside other (List.mem_cons_of_mem _ isMember))
        laterRenamed
      have sameFlags := flags_eq_of_renaming? belowRenamed
      have whole := first.append second
      rw [memberTokens, memberTokens, ← sameFlags]
      exact whole

/-- The tokens of a field under other names are its tokens, renamed. -/
theorem renames_tokensAt (mode : UnknownKeys) (renamed : field.renaming? other = some pairs)
    (path : List Token) (depth : Nat) :
    Token.Renames pairs (field.tokensAt mode path depth) (other.tokensAt mode path depth) := by
  induction field using induct generalizing other pairs path depth with
  | leaf type flags =>
      rcases renaming?_leaf renamed with ⟨rfl, rfl⟩
      exact .same _
  | object members flags inside =>
      rcases renaming?_object renamed with ⟨others, rfl, membersRenamed⟩
      have checked := renames_memberTokens mode
        (fun member isMember other pairs renamed path depth =>
          inside member isMember renamed path depth) membersRenamed path (depth + 1)
      rcases renames_unknown mode path membersRenamed with ⟨listed, included, unknown⟩
      apply renames_guarded
      have whole := (checked.before (typeTokens path .object)).append unknown
      apply whole.congr
      · exact List.append_subset.mpr ⟨List.Subset.refl _, included⟩
      · exact List.subset_append_left _ _

end Tokens

/-- An emitted text is always split into tokens. Under other names it is split into as many, which
differ in nothing but strings that carry a name here and there the name in its place, and each such
pair of names is met. -/
theorem scan_emit_renamed (mode : UnknownKeys) (field : Field) :
    ∃ tokens, Token.scan (field.emit mode rootName).toList = .ok tokens ∧
      ∀ (other : Field) (pairs : List (String × String)),
        field.renaming? other = some pairs →
          ∃ others, Token.scan (other.emit mode rootName).toList = .ok others ∧
            List.Forall₂ (Token.Renamed pairs) (tokens.map Located.token)
              (others.map Located.token) ∧
            ∀ pair ∈ pairs, (Token.text pair.1, Token.text pair.2) ∈
              (tokens.map Located.token).zip (others.map Located.token) := by
  have spelledRoot := Let.isName_rootName.spelledBy
  rcases (sealedBy_emitAt mode field spelledRoot 0).spelledBy.scan with ⟨tokens, same, scanned⟩
  refine ⟨tokens, scanned, ?_⟩
  intro other pairs renamed
  rcases (sealedBy_emitAt mode other spelledRoot 0).spelledBy.scan with
    ⟨others, otherSame, otherScanned⟩
  have renames := renames_tokensAt mode renamed [.name rootName] 0
  rw [← same, ← otherSame] at renames
  exact ⟨others, otherScanned, renames.agree, renames.occur⟩

/-- A name that reads like an expression, and names with a quote, a backslash and a line feed. -/
theorem scan_emit_renamed_expressions :
    let field : Field :=
      .object [("a\"] || true || [\"", .object [("true", .string)] {}), ("b", .number)] {}
    let other : Field :=
      .object [("\\", .object [("\"", .string)] {}), ("\n", .number)] {}
    let pairs : List (String × String) :=
      [("a\"] || true || [\"", "\\"), ("true", "\""), ("b", "\n")]
    field.renaming? other = some pairs ∧
      ∃ tokens others, Token.scan (field.emit .reject rootName).toList = .ok tokens ∧
        Token.scan (other.emit .reject rootName).toList = .ok others ∧
        List.Forall₂ (Token.Renamed pairs) (tokens.map Located.token)
          (others.map Located.token) ∧
        ∀ pair ∈ pairs, (Token.text pair.1, Token.text pair.2) ∈
          (tokens.map Located.token).zip (others.map Located.token) := by
  intro field other pairs
  have renamed : field.renaming? other = some pairs := rfl
  rcases scan_emit_renamed .reject field with ⟨tokens, scanned, underOtherNames⟩
  rcases underOtherNames other pairs renamed with ⟨others, otherScanned, agree, occur⟩
  exact ⟨renamed, tokens, others, scanned, otherScanned, agree, occur⟩

end Field

end JsonShape
