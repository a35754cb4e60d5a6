import JsonShape.Proofs.Check.Formula
import JsonShape.Proofs.Schema.Tokens

/-!
# The meaning of an emitted text

`Field.formulaAt` is the formula that the tokens of a field derive in any scope in which the path
leads to given members (`derives_tokensAt`), and it is true of a value exactly if the field accepts
what those members lead to (`eval_formulaAt`).

Each member is bound to a name that counts object nodes, so that inner members hide outer ones and
even the first name of the path may be hidden. This does no harm: inside the group of a binding
only the bound name is used, and the binding is gone where the path is used again.
-/

namespace JsonShape

open Check

namespace Members

theorem mem_names_sorted {Value : Type} {name : String} (pairs : List (String × Value)) :
    name ∈ names (sorted pairs) ↔ name ∈ names pairs := by
  suffices general : ∀ members : List (String × Value),
      name ∈ names (pairs.foldl (fun members pair => insert pair.1 pair.2 members) members) ↔
        name ∈ names members ∨ name ∈ names pairs by
    have fromEmpty := general []
    simpa [sorted] using fromEmpty
  induction pairs with
  | nil => simp
  | cons pair rest ih =>
      intro members
      rcases pair with ⟨first, value⟩
      rw [List.foldl_cons, ih, mem_names_insert, names_cons, List.mem_cons]
      constructor
      · rintro ((same | before) | later)
        · exact .inr (.inl same)
        · exact .inl before
        · exact .inr (.inr later)
      · rintro (before | same | later)
        · exact .inl (.inr before)
        · exact .inl (.inl same)
        · exact .inr later

theorem mem_sortedNames {name : String} (given : List String) :
    name ∈ sortedNames given ↔ name ∈ given := by
  rw [sortedNames, mem_names_sorted, names, List.map_map]
  simp

end Members

namespace Field

def guardedFormula (path : List String) (flags : Flags) (body : Formula) : Formula :=
  .cond (.test path .isNull) (.constant flags.nullable)
    (.cond (.test path .isAbsent) (.constant flags.optional) body)

def memberFormula (path : List String) (name : String) (optional : Bool) (inner : Formula) :
    Formula :=
  .cond (.not (.test path (.has name))) (.constant optional) (.binding (path ++ [name]) inner)

/-- The formula of `unknownCheck` behind another formula. -/
def unknownFormula (mode : UnknownKeys) (path : List String) (declared : List String)
    (before : Formula) : Formula :=
  match mode with
  | .ignore => before
  | .reject => .and before (.test path (.onlyKeys (Members.sortedNames declared)))

mutual

/-- The formula of a field for the value that member names lead to. -/
def formulaAt (mode : UnknownKeys) (path : List String) : Field → Formula
  | .leaf type flags => guardedFormula path flags (.test path (.isKind type.kind))
  | .object members flags =>
      guardedFormula path flags
        (unknownFormula mode path (Members.names members)
          (membersFormula mode path members (.test path (.isKind .object))))

def membersFormula (mode : UnknownKeys) (path : List String) :
    List (String × Field) → Formula → Formula
  | [], before => before
  | (name, field) :: rest, before =>
      membersFormula mode path rest
        (.and before
          (memberFormula path name field.flags.optional (formulaAt mode (path ++ [name]) field)))

end

/-! ### Derivation -/

section Derivation

variable {bindings : Bindings} {path : List Token} {reached : List String} {body : List Token}
  {formula : Formula}

theorem conjunction_of_atom (inner : Derives .atom bindings body formula) :
    Derives .conjunction bindings body formula :=
  .ofUnary (.ofAtom inner)

theorem expr_of_atom (inner : Derives .atom bindings body formula) :
    Derives .expr bindings body formula :=
  .ofConjunction (conjunction_of_atom inner)

theorem derivesPath_member (derived : DerivesPath bindings path reached) (name : String) :
    DerivesPath bindings (path ++ [.openBracket, .text name, .closeBracket])
      (reached ++ [name]) := by
  cases derived with
  | @path first base keys bound =>
      have tokens : Token.ofKeys keys ++ [.openBracket, .text name, .closeBracket] =
          Token.ofKeys (keys ++ [name]) := by
        induction keys with
        | nil => rfl
        | cons key keys ih => simp [Token.ofKeys, ih]
      rw [List.cons_append, tokens, List.append_assoc]
      exact .path (keys ++ [name]) bound

theorem derives_ofBool (value : Bool) :
    Derives .atom bindings [Token.ofBool value] (.constant value) := by
  cases value with
  | true => exact .isTrue
  | false => exact .isFalse

theorem derives_guarded (tested : DerivesPath bindings path reached) (flags : Flags)
    (inner : Derives .expr bindings body formula) :
    Derives .atom bindings (guardedTokens path flags body)
      (guardedFormula reached flags formula) := by
  have present := Derives.cond (conjunction_of_atom (.isAbsent tested))
    (expr_of_atom (derives_ofBool flags.optional)) (expr_of_atom (.group inner))
  have whole := Derives.cond (conjunction_of_atom (.isNull tested))
    (expr_of_atom (derives_ofBool flags.nullable)) (expr_of_atom (.group present))
  simpa [guardedTokens, guardedFormula] using Derives.group whole

theorem derives_typeCheck (tested : DerivesPath bindings path reached) (kind : Json.Kind) :
    Derives .atom bindings (typeTokens path kind) (.test reached (.isKind kind)) := by
  simpa [typeTokens] using Derives.isKind kind tested

theorem derives_unknownCheck (tested : DerivesPath bindings path reached) (mode : UnknownKeys)
    (declared : List String) (before : Derives .conjunction bindings body formula) :
    Derives .conjunction bindings (body ++ unknownTokens mode path declared)
      (unknownFormula mode reached declared formula) := by
  cases mode with
  | ignore => simpa [unknownTokens, unknownFormula] using before
  | reject =>
      have known := Derives.onlyKeys declared tested
      simpa [unknownTokens, unknownFormula] using before.and (.ofAtom known)

theorem derives_memberCheck (tested : DerivesPath bindings path reached) (name bound : String)
    (optional : Bool) {inner : List Token} {meaning : Formula}
    (within : Derives .expr ((bound, reached ++ [name]) :: bindings) inner meaning)
    (before : Derives .conjunction bindings body formula) :
    Derives .conjunction bindings (body ++ memberCheckTokens path name optional bound inner)
      (.and formula (memberFormula reached name optional meaning)) := by
  have missing := Derives.not (.ofAtom (.group (expr_of_atom (.has name tested))))
  have given := Derives.binding bound (derivesPath_member tested name) within
  have checked := Derives.cond (.ofUnary missing) (expr_of_atom (derives_ofBool optional))
    (expr_of_atom (.group (expr_of_atom given)))
  simpa [memberCheckTokens, memberFormula] using before.and (.ofAtom (.group checked))

theorem derivesPath_bound (name : String) (reached : List String) (bindings : Bindings) :
    DerivesPath ((name, reached) :: bindings) [.name name] reached := by
  have derived : DerivesPath ((name, reached) :: bindings) (.name name :: Token.ofKeys [])
      (reached ++ []) := .path [] List.lookup_cons_self
  rw [List.append_nil] at derived
  exact derived

mutual

/-- The tokens of a field derive its formula, whatever is bound around them. -/
theorem derives_tokensAt (mode : UnknownKeys) : (field : Field) →
    ∀ {bindings : Bindings} {path : List Token} {reached : List String},
      DerivesPath bindings path reached → ∀ depth : Nat,
        Derives .atom bindings (field.tokensAt mode path depth) (field.formulaAt mode reached)
  | .leaf type flags, _, _, _, tested, _ =>
      derives_guarded tested flags (expr_of_atom (derives_typeCheck tested type.kind))
  | .object members flags, _, _, _, tested, depth => by
      have kind := conjunction_of_atom (derives_typeCheck tested .object)
      have checked := derives_memberTokens mode members tested (depth + 1) kind
      have body := derives_unknownCheck tested mode (Members.names members) checked
      exact derives_guarded tested flags (.ofConjunction body)

theorem derives_memberTokens (mode : UnknownKeys) : (members : List (String × Field)) →
    ∀ {bindings : Bindings} {path : List Token} {reached : List String},
      DerivesPath bindings path reached → ∀ (depth : Nat) {before : List Token}
        {formula : Formula}, Derives .conjunction bindings before formula →
          Derives .conjunction bindings (before ++ memberTokens mode path depth members)
            (membersFormula mode reached members formula)
  | [], _, _, _, _, _, _, _, derived => by
      rw [memberTokens, List.append_nil]
      exact derived
  | (name, field) :: rest, bindings, _, reached, tested, depth, _, _, derived => by
      have bound := derivesPath_bound (memberName depth) (reached ++ [name]) bindings
      have inner := derives_tokensAt mode field bound depth
      have first := derives_memberCheck tested name (memberName depth) field.flags.optional
        (expr_of_atom inner) derived
      rw [memberTokens, ← List.append_assoc]
      exact derives_memberTokens mode rest tested depth first

end

end Derivation

/-! ### Truth value -/

section Meaning

variable {subject : Option Json} {path : List String}

theorem follow_append (subject : Option Json) (path : List String) (name : String) :
    follow subject (path ++ [name]) = (follow subject path).bind (Json.member? · name) := by
  rw [follow, List.foldl_append]
  rfl

theorem eval_guarded_none (absent : follow subject path = none) (flags : Flags)
    (body : Formula) :
    (guardedFormula path flags body).eval (Formula.holdsFor subject) = flags.optional := by
  simp [guardedFormula, Formula.eval, Formula.holdsFor, absent, Test.holds]

theorem eval_guarded_null (null : follow subject path = some .null) (flags : Flags)
    (body : Formula) :
    (guardedFormula path flags body).eval (Formula.holdsFor subject) = flags.nullable := by
  simp [guardedFormula, Formula.eval, Formula.holdsFor, null, Test.holds]

theorem eval_guarded_some {value : Json} (found : follow subject path = some value)
    (notNull : value ≠ .null) (flags : Flags) (body : Formula) :
    (guardedFormula path flags body).eval (Formula.holdsFor subject) =
      body.eval (Formula.holdsFor subject) := by
  have isNull : Test.isNull.holds (some value) = false := by
    cases value with
    | null => exact absurd rfl notNull
    | _ => rfl
  have isAbsent : Test.isAbsent.holds (some value) = false := rfl
  simp [guardedFormula, Formula.eval, Formula.holdsFor, found, isNull, isAbsent]

theorem eval_memberFormula {given : List (String × Json)}
    (found : follow subject path = some (.object given)) (mode : UnknownKeys) (name : String)
    (field : Field) {inner : Formula}
    (accepted : inner.eval (Formula.holdsFor subject) =
      field.accepts mode (follow subject (path ++ [name]))) :
    (memberFormula path name field.flags.optional inner).eval (Formula.holdsFor subject) =
      field.accepts mode (given.lookup name) := by
  have reached : follow subject (path ++ [name]) = given.lookup name := by
    rw [follow_append, found]
    rfl
  rw [reached] at accepted
  have tested : Formula.holdsFor subject path (.has name) = (given.lookup name).isSome := by
    rw [Formula.holdsFor, found]
    rfl
  rw [memberFormula, Formula.eval, Formula.eval, Formula.eval, Formula.eval, Formula.eval, tested,
    accepted]
  cases given.lookup name with
  | none => exact (accepts_none mode field).symm
  | some value => rfl

theorem eval_unknownFormula {given : List (String × Json)}
    (found : follow subject path = some (.object given)) (mode : UnknownKeys)
    (declared : List String) (before : Formula) :
    (unknownFormula mode path declared before).eval (Formula.holdsFor subject) =
      (before.eval (Formula.holdsFor subject) && mode.admits declared (Members.names given)) := by
  cases mode with
  | ignore => rw [unknownFormula, UnknownKeys.admits, Bool.and_true]
  | reject =>
      have tested : Formula.holdsFor subject path (.onlyKeys (Members.sortedNames declared)) =
          (Members.names given).all (· ∈ Members.sortedNames declared) := by
        rw [Formula.holdsFor, found]
        rfl
      simp only [unknownFormula, Formula.eval, tested, UnknownKeys.admits,
        Members.mem_sortedNames]

theorem eval_unknownFormula_false (mode : UnknownKeys) (declared : List String)
    {before : Formula} (fails : before.eval (Formula.holdsFor subject) = false) :
    (unknownFormula mode path declared before).eval (Formula.holdsFor subject) = false := by
  cases mode with
  | ignore => exact fails
  | reject => rw [unknownFormula, Formula.eval, fails, Bool.false_and]

theorem eval_membersFormula_false (mode : UnknownKeys) (members : List (String × Field))
    {before : Formula} (fails : before.eval (Formula.holdsFor subject) = false) :
    (membersFormula mode path members before).eval (Formula.holdsFor subject) = false := by
  induction members generalizing before with
  | nil => exact fails
  | cons member rest ih =>
      apply ih
      rw [Formula.eval, fails, Bool.false_and]

/-- A value that is neither `null` nor an object fails the check of an object node. -/
theorem eval_object_false {value : Json} (found : follow subject path = some value)
    (notObject : Json.Kind.object.includes value = false) (mode : UnknownKeys)
    (members : List (String × Field)) :
    (unknownFormula mode path (Members.names members)
      (membersFormula mode path members (.test path (.isKind .object)))).eval
        (Formula.holdsFor subject) = false := by
  apply eval_unknownFormula_false
  apply eval_membersFormula_false
  rw [Formula.eval, Formula.holdsFor, found]
  exact notObject

mutual

/-- The formula of a field is true exactly if the field accepts what the path leads to. -/
theorem eval_formulaAt (mode : UnknownKeys) (subject : Option Json) : (field : Field) →
    ∀ path : List String, (field.formulaAt mode path).eval (Formula.holdsFor subject) =
      field.accepts mode (follow subject path)
  | .leaf type flags, path => by
      rw [formulaAt]
      cases found : follow subject path with
      | none => rw [eval_guarded_none found, accepts]
      | some value =>
          by_cases null : value = .null
          · rw [null] at found ⊢
            rw [eval_guarded_null found, accepts]
          · rw [eval_guarded_some found null, accepts, Formula.eval, Formula.holdsFor, found]
            · rfl
            · exact null
  | .object members flags, path => by
      rw [formulaAt]
      cases found : follow subject path with
      | none => rw [eval_guarded_none found, accepts]
      | some value =>
          cases value with
          | null => rw [eval_guarded_null found, accepts]
          | object given =>
              have kind : (Formula.test path (.isKind .object)).eval
                  (Formula.holdsFor subject) = true := by
                rw [Formula.eval, Formula.holdsFor, found]
                rfl
              rw [eval_guarded_some found (by simp), eval_unknownFormula found,
                eval_membersFormula mode subject members path found, kind, Bool.true_and, accepts]
          | bool | number | string | array =>
              rw [eval_guarded_some found (by simp), eval_object_false found rfl, accepts]
              all_goals simp

theorem eval_membersFormula (mode : UnknownKeys) (subject : Option Json) :
    (members : List (String × Field)) → ∀ (path : List String) {given : List (String × Json)},
      follow subject path = some (.object given) → ∀ {before : Formula},
        (membersFormula mode path members before).eval (Formula.holdsFor subject) =
          (before.eval (Formula.holdsFor subject) && acceptsMembers mode members given)
  | [], _, _, _, _ => by rw [membersFormula, acceptsMembers, Bool.and_true]
  | (name, field) :: rest, path, _, found, _ => by
      have inner := eval_formulaAt mode subject field (path ++ [name])
      rw [membersFormula, eval_membersFormula mode subject rest path found, Formula.eval,
        eval_memberFormula found mode name field inner, acceptsMembers, Bool.and_assoc]

end

end Meaning

end Field

end JsonShape
