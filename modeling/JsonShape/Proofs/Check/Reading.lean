import JsonShape.Check.Parser
import JsonShape.Proofs.Check.Formula

/-!
# Reading paths, tests and bindings

Each reader that a step of the parser uses passes exactly the tokens of what it reads. One
direction says that the tokens it has passed are derived by the grammar; for it only the names in
scope count. The other direction says that it reads what the grammar derives, and which slots it
uses; for it every name must be bound to the slot of the path that the grammar binds it to.

A path ends where no bracket follows, so the second direction asks that none does.
-/

namespace JsonShape

namespace Check

namespace Parser

/-- The next token, if there is one, is another. -/
def Avoids (token : Token) (rest : List Located) : Prop :=
  ∀ head ∈ rest.head?, head.token ≠ token

theorem avoids_cons {token : Token} {head : Located} {rest : List Located}
    (other : head.token ≠ token) : Avoids token (head :: rest) := by
  intro first member
  simp only [List.head?_cons, Option.mem_def, Option.some.injEq] at member
  exact member ▸ other

/-! ### Member names and listed names -/

theorem exists_of_keys {tokens rest : List Located} {found : List String}
    (read : keys tokens = .ok (found, rest)) :
    ∃ consumed, tokens = consumed ++ rest ∧ consumed.map Located.token = Token.ofKeys found := by
  fun_induction keys tokens generalizing found rest with
  | case1 => simp at read
  | case2 => simp at read
  | case3 => simp at read
  | case4 offset afterBracket key afterKey textRead afterMember closeRead more tail again ih =>
      simp only [Except.ok.injEq, Prod.mk.injEq] at read
      rcases read with ⟨rfl, rfl⟩
      rcases text_eq_ok_iff.mp textRead with ⟨keyOffset, rfl⟩
      rcases expect_eq_ok_iff.mp closeRead with ⟨closeOffset, rfl⟩
      rcases ih again with ⟨consumed, rfl, spelled⟩
      refine ⟨⟨offset, .openBracket⟩ :: ⟨keyOffset, .text key⟩ ::
        ⟨closeOffset, .closeBracket⟩ :: consumed, rfl, ?_⟩
      simp [Token.ofKeys, spelled]
  | case5 =>
      simp only [Except.ok.injEq, Prod.mk.injEq] at read
      rcases read with ⟨rfl, rfl⟩
      exact ⟨[], rfl, rfl⟩

theorem keys_append {consumed rest : List Located} {found : List String}
    (spelled : consumed.map Located.token = Token.ofKeys found)
    (ends : Avoids .openBracket rest) : keys (consumed ++ rest) = .ok (found, rest) := by
  induction found generalizing consumed with
  | nil =>
      rw [Token.ofKeys, List.map_eq_nil_iff] at spelled
      subst consumed
      rw [List.nil_append, keys]
      intro offset afterBracket same
      exact ends ⟨offset, .openBracket⟩ (by rw [same]; rfl) rfl
  | cons key more ih =>
      simp only [Token.ofKeys, List.map_eq_cons_iff] at spelled
      rcases spelled with ⟨⟨openOffset, -⟩, -, rfl, rfl, ⟨keyOffset, -⟩, -, rfl, rfl,
        ⟨closeOffset, -⟩, later, rfl, rfl, spelled⟩
      rw [List.cons_append, List.cons_append, List.cons_append, keys]
      simp [text, expect, ih spelled]

theorem exists_of_names {tokens rest : List Located} {found : List String}
    (read : names tokens = .ok (found, rest)) :
    ∃ consumed, tokens = consumed ++ rest ∧
      consumed.map Located.token = Token.ofListed found := by
  fun_induction names tokens generalizing found rest with
  | case1 => simp at read
  | case2 => simp at read
  | case3 offset afterComma name afterName textRead more tail again ih =>
      simp only [Except.ok.injEq, Prod.mk.injEq] at read
      rcases read with ⟨rfl, rfl⟩
      rcases text_eq_ok_iff.mp textRead with ⟨nameOffset, rfl⟩
      rcases ih again with ⟨consumed, rfl, spelled⟩
      refine ⟨⟨offset, .comma⟩ :: ⟨nameOffset, .text name⟩ :: consumed, rfl, ?_⟩
      simp [Token.ofListed, spelled]
  | case4 =>
      simp only [Except.ok.injEq, Prod.mk.injEq] at read
      rcases read with ⟨rfl, rfl⟩
      exact ⟨[], rfl, rfl⟩

theorem names_append {consumed rest : List Located} {listed : List String}
    (spelled : consumed.map Located.token = Token.ofListed listed)
    (ends : Avoids .comma rest) : names (consumed ++ rest) = .ok (listed, rest) := by
  induction listed generalizing consumed with
  | nil =>
      rw [Token.ofListed, List.map_eq_nil_iff] at spelled
      subst consumed
      rw [List.nil_append, names]
      intro offset afterComma same
      exact ends ⟨offset, .comma⟩ (by rw [same]; rfl) rfl
  | cons name more ih =>
      simp only [Token.ofListed, List.map_eq_cons_iff] at spelled
      rcases spelled with ⟨⟨commaOffset, -⟩, -, rfl, rfl, ⟨nameOffset, -⟩, later, rfl, rfl,
        spelled⟩
      rw [List.cons_append, List.cons_append, names]
      simp only [text, ih spelled]

/-! ### Names and paths -/

section Sound

variable {bindings : Bindings} {scope : List (String × Nat)} {slots : Array Slot}
  {tokens rest : List Located}

/-- A name that is bound to a slot is bound to a path by the bindings of the same names. -/
theorem exists_lookup (names : scope.map Prod.fst = bindings.map Prod.fst) {name : String}
    {slot : Nat} (found : scope.lookup name = some slot) :
    ∃ base, bindings.lookup name = some base := by
  have named : (scope.lookup name).isSome := by rw [found]; rfl
  rw [List.lookup_isSome_iff] at named
  rcases named with ⟨bound, member, same⟩
  have inBindings : bound.1 ∈ bindings.map Prod.fst := names ▸ List.mem_map_of_mem member
  rcases List.mem_map.mp inBindings with ⟨other, otherMember, otherName⟩
  apply Option.isSome_iff_exists.mp
  rw [List.lookup_isSome_iff]
  exact ⟨other, otherMember, by rw [otherName]; exact same⟩

theorem derives_of_pathFrom (names : scope.map Prod.fst = bindings.map Prod.fst) {offset : Nat}
    {name : String} {found : Nat × Array Slot}
    (read : pathFrom scope slots offset name tokens = .ok (found, rest)) :
    ∃ consumed reached, tokens = consumed ++ rest ∧
      DerivesPath bindings (.name name :: consumed.map Located.token) reached := by
  rcases pathFrom_eq_ok_iff.mp read with ⟨slot, members, bound, keysRead, -⟩
  rcases exists_of_keys keysRead with ⟨consumed, rfl, spelled⟩
  rcases exists_lookup names bound with ⟨base, boundToBase⟩
  refine ⟨consumed, base ++ members, rfl, ?_⟩
  rw [spelled]
  exact .path members boundToBase

theorem derives_of_path (names : scope.map Prod.fst = bindings.map Prod.fst)
    {found : Nat × Array Slot} (read : path scope slots tokens = .ok (found, rest)) :
    ∃ consumed reached, tokens = consumed ++ rest ∧
      DerivesPath bindings (consumed.map Located.token) reached := by
  rcases path_eq_ok_iff.mp read with ⟨offset, name, later, rfl, laterRead⟩
  rcases derives_of_pathFrom names laterRead with ⟨consumed, reached, rfl, derived⟩
  exact ⟨⟨offset, .name name⟩ :: consumed, reached, rfl, derived⟩

theorem derives_of_kindTest (names : scope.map Prod.fst = bindings.map Prod.fst)
    {found : Expr × Array Slot} (read : kindTest scope slots tokens = .ok (found, rest)) :
    ∃ consumed formula, tokens = consumed ++ rest ∧
      Derives .atom bindings (.reserved .typeofWord :: consumed.map Located.token) formula := by
  rcases kindTest_eq_ok_iff.mp read with ⟨target, sameOffset, textOffset, kind, pathRead, -⟩
  rcases derives_of_path names pathRead with ⟨consumed, reached, rfl, derived⟩
  refine ⟨consumed ++ [⟨sameOffset, .same⟩, ⟨textOffset, .text kind.spelling⟩],
    .test reached (.isKind kind), by simp, ?_⟩
  simpa using Derives.isKind kind derived

theorem derives_of_onlyKeysTest (names : scope.map Prod.fst = bindings.map Prod.fst)
    {found : Expr × Array Slot} (read : onlyKeysTest scope slots tokens = .ok (found, rest)) :
    ∃ consumed formula, tokens = consumed ++ rest ∧
      Derives .atom bindings (.reserved .onlyKeysWord :: consumed.map Located.token) formula := by
  rcases onlyKeysTest_eq_ok_iff.mp read with
    ⟨openOffset, afterOpen, target, afterPath, listed, closeOffset, rfl, pathRead, namesRead, -⟩
  rcases exists_of_names namesRead with ⟨consumedNames, rfl, spelled⟩
  rcases derives_of_path names pathRead with ⟨consumed, reached, rfl, derived⟩
  refine ⟨⟨openOffset, .openParen⟩ :: (consumed ++ consumedNames) ++ [⟨closeOffset, .closeParen⟩],
    .test reached (.onlyKeys (Members.sortedNames listed)), by simp, ?_⟩
  simpa [spelled] using Derives.onlyKeys listed derived

theorem derives_of_comparisonTest (names : scope.map Prod.fst = bindings.map Prod.fst)
    {offset : Nat} {name : String} {found : Expr × Array Slot}
    (read : comparisonTest scope slots offset name tokens = .ok (found, rest)) :
    ∃ consumed formula, tokens = consumed ++ rest ∧
      Derives .atom bindings (.name name :: consumed.map Located.token) formula := by
  rcases comparisonTest_eq_ok_iff.mp read with
    ⟨target, sameOffset, afterSame, asked, pathRead, comparisonRead, -⟩
  rcases comparison_eq_ok_iff.mp comparisonRead with ⟨wordOffset, word, rfl, meaning⟩
  rcases derives_of_pathFrom names pathRead with ⟨consumed, reached, rfl, derived⟩
  refine ⟨consumed ++ [⟨sameOffset, .same⟩, ⟨wordOffset, .reserved word⟩], .test reached asked,
    by simp, ?_⟩
  rcases meaning with ⟨rfl, rfl⟩ | ⟨rfl, rfl⟩
  · simpa using Derives.isNull derived
  · simpa using Derives.isAbsent derived

theorem derives_of_hasTest (names : scope.map Prod.fst = bindings.map Prod.fst) {key : String}
    {found : Expr × Array Slot} (read : hasTest scope slots key tokens = .ok (found, rest)) :
    ∃ consumed formula, tokens = consumed ++ rest ∧
      Derives .atom bindings (.text key :: consumed.map Located.token) formula := by
  rcases hasTest_eq_ok_iff.mp read with ⟨inOffset, later, target, rfl, pathRead, -⟩
  rcases derives_of_path names pathRead with ⟨consumed, reached, rfl, derived⟩
  exact ⟨⟨inOffset, .reserved .inWord⟩ :: consumed, .test reached (.has key), rfl,
    .has key derived⟩

/-- What is read as an operand that is no group is derived as an atom. -/
theorem derives_of_atom (names : scope.map Prod.fst = bindings.map Prod.fst) {head : Located}
    {found : Expr × Array Slot} (read : atom scope slots head tokens = .ok (found, rest)) :
    ∃ consumed formula, tokens = consumed ++ rest ∧
      Derives .atom bindings ((head :: consumed).map Located.token) formula := by
  simp only [atom] at read
  simp only [List.map_cons]
  split at read
  case h_1 word =>
    simp only [Except.ok.injEq, Prod.mk.injEq] at read
    exact ⟨[], .constant true, read.2, word ▸ .isTrue⟩
  case h_2 word =>
    simp only [Except.ok.injEq, Prod.mk.injEq] at read
    exact ⟨[], .constant false, read.2, word ▸ .isFalse⟩
  case h_3 word => exact word ▸ derives_of_kindTest names read
  case h_4 word => exact word ▸ derives_of_onlyKeysTest names read
  case h_5 first word => exact word ▸ derives_of_comparisonTest names read
  case h_6 key word => exact word ▸ derives_of_hasTest names read
  case h_7 => simp at read

/-- What is read as a binding is the beginning of the group in which a name is bound. -/
theorem derives_of_binding (names : scope.map Prod.fst = bindings.map Prod.fst)
    {bound : String × Nat} {after : Array Slot}
    (read : binding scope slots tokens = .ok ((bound, after), rest)) :
    ∃ consumed path reached, tokens = consumed ++ rest ∧
      consumed.map Located.token =
        .name bound.1 :: .assign :: path ++ [.reserved .inWord, .openParen] ∧
      DerivesPath bindings path reached := by
  rcases binding_eq_ok_iff.mp read with
    ⟨nameOffset, name, assignOffset, later, target, inOffset, openOffset, rfl, pathRead, same⟩
  rcases derives_of_path names pathRead with ⟨consumed, reached, rfl, derived⟩
  simp only [Prod.mk.injEq] at same
  rw [same.1]
  exact ⟨⟨nameOffset, .name name⟩ :: ⟨assignOffset, .assign⟩ :: consumed ++
    [⟨inOffset, .reserved .inWord⟩, ⟨openOffset, .openParen⟩],
    consumed.map Located.token, reached, by simp, by simp, derived⟩

end Sound

/-- The names in scope stand for the slots of the paths that the bindings give them. -/
structure Agrees (slots : Array Slot) (scope : List (String × Nat)) (bindings : Bindings) :
    Prop where
  scope_eq : scope = bindings.map fun bound => (bound.1, Slot.number slots bound.2)
  known : ∀ bound ∈ bindings, Slot.Known slots bound.2

section Complete

variable {bindings : Bindings} {scope : List (String × Nat)} {slots after : Array Slot}
  {consumed rest : List Located} {tokens : List Token} {reached : List String}

namespace Agrees

theorem initial : Agrees #[.root] [(rootName, 0)] [(rootName, [])] := by
  refine ⟨rfl, ?_⟩
  intro bound member
  rw [List.mem_singleton.mp member]
  exact Slot.known_nil .initial

theorem names (agrees : Agrees slots scope bindings) :
    scope.map Prod.fst = bindings.map Prod.fst := by
  rw [agrees.scope_eq, List.map_map]
  rfl

theorem grow (agrees : Agrees slots scope bindings) (internedBefore : Slot.Interned slots)
    (internedAfter : Slot.Interned after) (grown : Slot.Extends slots after) :
    Agrees after scope bindings := by
  refine ⟨?_, fun bound member => (agrees.known bound member).grow grown internedAfter.ordered⟩
  rw [agrees.scope_eq]
  apply List.map_congr_left
  intro bound member
  rw [(agrees.known bound member).number_eq internedBefore internedAfter grown]

theorem push (agrees : Agrees slots scope bindings) (name : String)
    (known : Slot.Known slots reached) :
    Agrees slots ((name, Slot.number slots reached) :: scope) ((name, reached) :: bindings) := by
  refine ⟨by rw [agrees.scope_eq, List.map_cons], ?_⟩
  intro bound member
  rcases List.mem_cons.mp member with rfl | older
  · exact known
  · exact agrees.known bound older

theorem lookup_eq (agrees : Agrees slots scope bindings) {name : String} {base : List String}
    (bound : bindings.lookup name = some base) :
    scope.lookup name = some (Slot.number slots base) := by
  rw [agrees.scope_eq, Members.lookup_map, bound]
  rfl

theorem known_of_lookup (agrees : Agrees slots scope bindings) {name : String}
    {base : List String} (bound : bindings.lookup name = some base) : Slot.Known slots base := by
  rcases List.lookup_eq_some_iff.mp bound with ⟨before, later, rfl, -⟩
  exact agrees.known (name, base) (by simp)

end Agrees

theorem pathFrom_append (interned : Slot.Interned slots) (agrees : Agrees slots scope bindings)
    {name : String} (derived : DerivesPath bindings (.name name :: tokens) reached)
    (spelled : consumed.map Located.token = tokens) (ends : Avoids .openBracket rest)
    (offset : Nat) :
    pathFrom scope slots offset name (consumed ++ rest) =
      .ok (Slot.internPath slots 0 reached, rest) := by
  cases derived with
  | @path name base keys bound =>
      have known := agrees.known_of_lookup bound
      have located := Slot.internPath_base interned (known.number_lt interned) keys
      rw [known.path_number interned] at located
      exact pathFrom_eq_ok_iff.mpr
        ⟨Slot.number slots base, keys, agrees.lookup_eq bound, keys_append spelled ends,
          located.symm⟩

theorem path_append (interned : Slot.Interned slots) (agrees : Agrees slots scope bindings)
    (derived : DerivesPath bindings tokens reached)
    (spelled : consumed.map Located.token = tokens) (ends : Avoids .openBracket rest) :
    path scope slots (consumed ++ rest) = .ok (Slot.internPath slots 0 reached, rest) := by
  have shaped := derived
  cases shaped with
  | @path name base keys bound =>
      rcases List.map_eq_cons_iff.mp spelled with ⟨⟨offset, -⟩, more, rfl, rfl, spelledKeys⟩
      have laterRead := pathFrom_append interned agrees derived spelledKeys ends offset
      exact path_eq_ok_iff.mpr ⟨offset, name, more ++ rest, rfl, laterRead⟩

theorem kindTest_append (interned : Slot.Interned slots) (agrees : Agrees slots scope bindings)
    (derived : DerivesPath bindings tokens reached) (kind : Json.Kind)
    (spelled : consumed.map Located.token = tokens ++ [.same, .text kind.spelling]) :
    kindTest scope slots (consumed ++ rest) =
      .ok ((.test (Slot.internPath slots 0 reached).1 (.isKind kind),
        (Slot.internPath slots 0 reached).2), rest) := by
  rcases List.map_eq_append_iff.mp spelled with ⟨pathPart, later, rfl, spelledPath, spelledLater⟩
  simp only [List.map_eq_cons_iff, List.map_eq_nil_iff] at spelledLater
  rcases spelledLater with ⟨⟨sameOffset, -⟩, -, rfl, rfl, ⟨textOffset, -⟩, -, rfl, rfl, rfl⟩
  rw [List.append_assoc]
  apply kindTest_eq_ok_iff.mpr
  refine ⟨_, sameOffset, textOffset, kind, ?_, rfl⟩
  exact path_append interned agrees derived spelledPath (avoids_cons (by simp))

theorem onlyKeysTest_append (interned : Slot.Interned slots)
    (agrees : Agrees slots scope bindings) (derived : DerivesPath bindings tokens reached)
    (listed : List String)
    (spelled : consumed.map Located.token =
      .openParen :: tokens ++ Token.ofListed listed ++ [.closeParen]) :
    onlyKeysTest scope slots (consumed ++ rest) =
      .ok ((.test (Slot.internPath slots 0 reached).1 (.onlyKeys (Members.sortedNames listed)),
        (Slot.internPath slots 0 reached).2), rest) := by
  rw [List.append_assoc, List.cons_append] at spelled
  rcases List.map_eq_cons_iff.mp spelled with ⟨⟨openOffset, -⟩, inner, rfl, rfl, spelledInner⟩
  rcases List.map_eq_append_iff.mp spelledInner with ⟨pathPart, later, rfl, spelledPath,
    spelledLater⟩
  rcases List.map_eq_append_iff.mp spelledLater with ⟨namesPart, last, rfl, spelledNames,
    spelledLast⟩
  simp only [List.map_eq_cons_iff, List.map_eq_nil_iff] at spelledLast
  rcases spelledLast with ⟨⟨closeOffset, -⟩, -, rfl, rfl, rfl⟩
  have namesEnd : Avoids .openBracket (namesPart ++ (⟨closeOffset, .closeParen⟩ :: rest)) := by
    cases listed with
    | nil =>
        rw [List.map_eq_nil_iff.mp spelledNames]
        exact avoids_cons (by simp)
    | cons name more =>
        rcases List.map_eq_cons_iff.mp spelledNames with ⟨head, others, rfl, headToken, -⟩
        exact avoids_cons (by simp [headToken])
  have pathRead := path_append interned agrees derived spelledPath namesEnd
  rw [List.cons_append, List.append_assoc, List.append_assoc]
  apply onlyKeysTest_eq_ok_iff.mpr
  refine ⟨openOffset, _, _, _, listed, closeOffset, rfl, pathRead, ?_, rfl⟩
  exact names_append spelledNames (avoids_cons (by simp))

theorem comparisonTest_append (interned : Slot.Interned slots)
    (agrees : Agrees slots scope bindings) {name : String} {word : Keyword} {asked : Test}
    (derived : DerivesPath bindings (.name name :: tokens) reached)
    (meaning : word = .nullWord ∧ asked = .isNull ∨ word = .undefinedWord ∧ asked = .isAbsent)
    (spelled : consumed.map Located.token = tokens ++ [.same, .reserved word]) (offset : Nat) :
    comparisonTest scope slots offset name (consumed ++ rest) =
      .ok ((.test (Slot.internPath slots 0 reached).1 asked,
        (Slot.internPath slots 0 reached).2), rest) := by
  rcases List.map_eq_append_iff.mp spelled with ⟨pathPart, later, rfl, spelledPath, spelledLater⟩
  simp only [List.map_eq_cons_iff, List.map_eq_nil_iff] at spelledLater
  rcases spelledLater with ⟨⟨sameOffset, -⟩, -, rfl, rfl, ⟨wordOffset, -⟩, -, rfl, rfl, rfl⟩
  rw [List.append_assoc]
  have comparisonRead : comparison (⟨wordOffset, .reserved word⟩ :: rest) = .ok (asked, rest) :=
    comparison_eq_ok_iff.mpr ⟨wordOffset, word, rfl, meaning⟩
  apply comparisonTest_eq_ok_iff.mpr
  refine ⟨_, sameOffset, _, asked, ?_, comparisonRead, rfl⟩
  exact pathFrom_append interned agrees derived spelledPath (avoids_cons (by simp)) offset

theorem hasTest_append (interned : Slot.Interned slots) (agrees : Agrees slots scope bindings)
    (derived : DerivesPath bindings tokens reached) (key : String)
    (spelled : consumed.map Located.token = .reserved .inWord :: tokens)
    (ends : Avoids .openBracket rest) :
    hasTest scope slots key (consumed ++ rest) =
      .ok ((.test (Slot.internPath slots 0 reached).1 (.has key),
        (Slot.internPath slots 0 reached).2), rest) := by
  rcases List.map_eq_cons_iff.mp spelled with ⟨⟨inOffset, -⟩, inner, rfl, rfl, spelledInner⟩
  have pathRead := path_append interned agrees derived spelledInner ends
  exact hasTest_eq_ok_iff.mpr ⟨inOffset, _, _, rfl, pathRead, rfl⟩

theorem binding_append (interned : Slot.Interned slots) (agrees : Agrees slots scope bindings)
    (derived : DerivesPath bindings tokens reached) (name : String)
    (spelled : consumed.map Located.token =
      .name name :: .assign :: tokens ++ [.reserved .inWord, .openParen]) :
    binding scope slots (consumed ++ rest) =
      .ok (((name, (Slot.internPath slots 0 reached).1), (Slot.internPath slots 0 reached).2),
        rest) := by
  simp only [List.cons_append, List.map_eq_cons_iff] at spelled
  rcases spelled with ⟨⟨nameOffset, -⟩, -, rfl, rfl, ⟨assignOffset, -⟩, inner, rfl, rfl,
    spelledInner⟩
  rcases List.map_eq_append_iff.mp spelledInner with ⟨pathPart, later, rfl, spelledPath,
    spelledLater⟩
  simp only [List.map_eq_cons_iff, List.map_eq_nil_iff] at spelledLater
  rcases spelledLater with ⟨⟨inOffset, -⟩, -, rfl, rfl, ⟨openOffset, -⟩, -, rfl, rfl, rfl⟩
  rw [List.cons_append, List.cons_append, List.append_assoc]
  apply binding_eq_ok_iff.mpr
  refine ⟨nameOffset, name, assignOffset, _, _, inOffset, openOffset, rfl, ?_, rfl⟩
  exact path_append interned agrees derived spelledPath (avoids_cons (by simp))

end Complete

end Parser

end Check

end JsonShape
