import JsonShape.Proofs.Check.Resolution
import JsonShape.Proofs.Program.Compilation

/-!
# How programs name the paths of their source

Each path that a source mentions is given a slot when it is read, and the slot spells the path as it
unfolds where it is written. The table of a program holds what its source mentions and nothing more,
in the order of first mention (`Resolves`).

Lowering keeps the tests of an expression in the order in which they are written
(`Check.Expr.slots_piece`), so the slots that were given to tests are those that the instructions
look at, one after the other.
-/

namespace JsonShape

open Check

/-- The slots that the instructions of a piece look at, in order. -/
def Piece.slots (piece : Piece) : List Nat :=
  piece.ops.filterMap Instruction.slot?

namespace Piece

@[simp]
theorem slots_append (first second : Piece) :
    (first ++ second).slots = first.slots ++ second.slots :=
  List.filterMap_append

@[simp]
theorem slots_invertIf (inverted : Bool) (piece : Piece) :
    (piece.invertIf inverted).slots = piece.slots := by
  cases inverted with
  | false => rfl
  | true => exact (slots_append piece (ofOp .not)).trans (List.append_nil _)

@[simp]
theorem slots_ofOp_jump (branch : Branch) (target : Nat) :
    (ofOp (.jump branch target)).slots = [] :=
  rfl

theorem slots_ofTest (start : Offsets) (slot : Nat) (test : Test) :
    (ofTest start slot test).slots = [slot] := by
  cases test <;> rfl

theorem slots_guarded (target : Nat) (pieces : List Piece) :
    (guarded target pieces).slots = pieces.flatMap slots := by
  induction pieces with
  | nil => rfl
  | cons piece rest ih => simp [guarded, ih]

end Piece

namespace Check.Expr

theorem slots_piece_cond {condition consequent alternative : Expr}
    (test : ∀ start inverted, (condition.piece start inverted).slots = condition.tested)
    (whenTrue : ∀ start inverted, (consequent.piece start inverted).slots = consequent.tested)
    (whenFalse : ∀ start inverted, (alternative.piece start inverted).slots = alternative.tested)
    (start : Offsets) (inverted : Bool) :
    ((cond condition consequent alternative).piece start inverted).slots =
      (cond condition consequent alternative).tested := by
  -- a constant consequent has no code of its own, but it tests nothing either
  cases consequent with
  | constant value => cases value <;> simp [piece, tested, test, whenFalse]
  | _ =>
      rw [piece, Piece.slots_invertIf]
      · simp [tested, test, whenTrue, whenFalse]
      all_goals simp

mutual

/-- The code of an expression looks at the slots that the expression tests, in the same order. -/
theorem slots_piece : (expr : Expr) → ∀ start inverted,
    (expr.piece start inverted).slots = expr.tested
  | .constant _ => fun _ inverted => by
      rw [piece, Piece.slots_invertIf]
      rfl
  | .test slot asked => fun start inverted => by
      rw [piece, Piece.slots_invertIf, Piece.slots_ofTest]
      rfl
  | .not operand => fun start inverted => slots_piece operand start (!inverted)
  | .and first rest => fun start inverted => by
      simp only [piece, Piece.slots_invertIf, Piece.slots_append, Piece.slots_guarded, tested]
      rw [slots_piece first, slots_pieces rest]
  | .cond condition consequent alternative =>
      slots_piece_cond (slots_piece condition) (slots_piece consequent) (slots_piece alternative)

theorem slots_pieces : (parts : List Expr) → ∀ start,
    (pieces start parts).flatMap Piece.slots = testedAll parts
  | [] => fun _ => rfl
  | part :: rest => fun start => by
      simp only [pieces, List.flatMap_cons, testedAll]
      rw [slots_piece part, slots_pieces rest]

end

end Check.Expr

namespace Program

theorem slots_ops_ofExpr (source : String) (expr : Expr) (slots : Array Slot) :
    (ofExpr source expr slots).ops.toList.filterMap Instruction.slot? = expr.tested := by
  rw [ofExpr_eq]
  exact expr.slots_piece ⟨0, 0, 0⟩ false

/-- The paths that a source mentions have been given slots of a program as they should be. -/
structure Resolves (program : Program) (mentions : List (Use × List String))
    (given : List (Use × Nat)) : Prop where
  uses : given.map Prod.fst = mentions.map Prod.fst
  spelled : List.Forall₂ (Slot.Spells program.slots) (given.map Prod.snd) (mentions.map Prod.snd)
  /-- Two paths share a slot exactly if they unfold to the same. -/
  same_iff : ∀ first second : Nat, (given.map Prod.snd)[first]? = (given.map Prod.snd)[second]? ↔
    (mentions.map Prod.snd)[first]? = (mentions.map Prod.snd)[second]?
  /-- The instructions look at the slots of the paths in tests. -/
  tests : program.ops.toList.filterMap Instruction.slot? = Parser.testSlots given
  distinct : ∀ (first second : Nat) (definition : Slot), program.slots[first]? = some definition →
    program.slots[second]? = some definition → first = second
  /-- The root, then each path behind its beginnings, as they are mentioned first. -/
  numbered : List.Forall₂ (Slot.Spells program.slots) (List.range program.slots.size)
    ([] :: (mentions.map Prod.snd).flatMap List.inits).eraseDups

theorem resolves_of_ofTokens {tokens : List Located} {expr : Expr} {slots : Array Slot}
    (read : Expr.ofTokens tokens = .ok (expr, slots)) (source : String) :
    Resolves (ofExpr source expr slots) (Token.unfolded [] none (tokens.map Located.token))
      (Parser.givenSlots .initial tokens) := by
  have resolved := Expr.slots_of_ofTokens read
  generalize Token.unfolded [] none (tokens.map Located.token) = mentions at resolved ⊢
  generalize Parser.givenSlots .initial tokens = given at resolved ⊢
  rcases resolved with ⟨interning, rfl, tested⟩
  rcases Slot.internPaths_spec .initial (mentions.map Prod.snd) with ⟨interned, -, known⟩
  have root : Slot.paths #[.root] = [[]].eraseDups := Slot.paths_root
  have numbering := Slot.paths_internPaths .initial root (mentions.map Prod.snd)
  rw [← interning] at interned known numbering
  have places : (mentions.map (Parser.numbered slots)).map Prod.snd =
      (mentions.map Prod.snd).map (Slot.number slots) := by
    rw [List.map_map, List.map_map]
    rfl
  refine ⟨?_, ?_, ?_, ?_, interned.distinct, ?_⟩
  · rw [List.map_map]
    rfl
  · rw [places, List.forall₂_map_left_iff, List.forall₂_same]
    intro path mentioned
    exact (known path mentioned).spells_number interned
  · intro first second
    rw [places]
    exact Slot.getElem?_map_number_eq_iff interned known first second
  · rw [slots_ops_ofExpr, tested]
  · have spelled := Slot.forall₂_spells_paths interned
    rw [numbering] at spelled
    exact spelled

/-- What compiling makes of the paths of a source, which are those of the formula that it means. -/
theorem exists_resolves_of_compile {source : String} {program : Program}
    (compiled : compile source = .ok program) :
    ∃ tokens formula, Token.scan source.toList = .ok tokens ∧
      IsExpr (tokens.map Located.token) formula ∧
      let mentions := Token.unfolded [] none (tokens.map Located.token)
      formula.mentions = mentions.map Prod.snd ∧
        Resolves program mentions (Parser.givenSlots .initial tokens) := by
  rcases exists_isExpr_of_compile compiled with ⟨tokens, formula, scanned, derived, rfl⟩
  have read := Expr.ofTokens_of_isExpr derived
  exact ⟨tokens, formula, scanned, derived, derived.mentions_eq, resolves_of_ofTokens read source⟩

/-- A name is bound again by a path that begins with it, and both bindings end; then the name of the
root is bound. -/
theorem exists_resolves_rebound :
    let source := "let v = value[\"a\"] in ((let v = v[\"b\"] in (v === null)) && " ++
      "v[\"c\"] === null && let value = v[\"b\"] in (\"k\" in value[\"d\"]))"
    let program : Program :=
      ⟨#[.isNull 2, .jump .ifFalse 5, .isNull 3, .jump .ifFalse 5, .has 4 0],
        #[.root, .member 0 "a", .member 1 "b", .member 1 "c", .member 2 "d"], #["k"], #[], source⟩
    compile source = .ok program ∧ ∃ tokens, Token.scan source.toList = .ok tokens ∧
      Parser.givenSlots .initial tokens =
        [(.binding, 1), (.binding, 2), (.test, 2), (.test, 3), (.binding, 2), (.test, 4)] ∧
      Resolves program (Token.unfolded [] none (tokens.map Located.token))
        (Parser.givenSlots .initial tokens) := by
  intro source program
  have compiled : compile source = .ok program := by decide +kernel
  have given : (Token.scan source.toList).map (Parser.givenSlots .initial) =
      .ok [(.binding, 1), (.binding, 2), (.test, 2), (.test, 3), (.binding, 2), (.test, 4)] := by
    decide +kernel
  rcases exists_resolves_of_compile compiled with ⟨tokens, formula, scanned, -, -, resolved⟩
  rw [scanned] at given
  exact ⟨compiled, tokens, scanned, Except.ok.inj given, resolved⟩

end Program

end JsonShape
