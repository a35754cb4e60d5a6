import JsonShape.Proofs.Check.Scanning
import JsonShape.Proofs.Check.Viability
import JsonShape.Proofs.Program.Compilation

/-!
# Errors stand where no continuation is left

A source whose tokens can be found is compiled, or ends too early, or is refused. It ends too early
exactly if it is not compiled but some continuation of it is. If it is refused, every continuation
is refused for the same reason, and if the reason has a position, a token stands there and what
stands before it is not refused.

The part before the position cannot be refused, since the whole source would then be refused at a
token of that part.
-/

namespace JsonShape

open Check

namespace Check.Token

theorem exists_spells_of_filler {token : Token} (filler : token ∈ fillers) :
    ∃ spelling, Spells spelling token := by
  have root : Spells rootName.toList (.name rootName) :=
    .word (by decide) (List.all_eq_true.mp (by decide))
  simp only [fillers, List.mem_cons, List.not_mem_nil, or_false] at filler
  rcases filler with rfl | rfl | rfl | rfl | rfl | rfl | rfl | rfl | rfl | rfl | rfl | rfl
  · exact ⟨_, spells_keyword .trueWord⟩
  · exact ⟨_, spells_keyword .inWord⟩
  · exact ⟨_, spells_keyword .nullWord⟩
  · exact ⟨_, root⟩
  · exact ⟨_, .literal (isLiteral_encode "")⟩
  · exact ⟨_, .literal (isLiteral_encode Json.Kind.string.spelling)⟩
  all_goals exact ⟨_, .symbol rfl⟩

/-- The tokens that complete what is incomplete can be written, with a blank behind each. -/
theorem exists_writes_of_fillers {more : List Token} (fills : ∀ token ∈ more, token ∈ fillers) :
    ∃ text, Writes more text := by
  induction more with
  | nil => exact ⟨[], .nil⟩
  | cons token more ih =>
      rcases ih fun other member => fills other (by simp [member]) with ⟨text, written⟩
      rcases exists_spells_of_filler (fills token (by simp)) with ⟨spelling, spelled⟩
      have delimited : Delimited (' ' :: text) := delimited_cons (by decide)
      exact ⟨spelling ++ ' ' :: text, written.blank.cons spelled (delimited.ends token)⟩

end Check.Token

namespace Program

variable {source : String} {tokens : List Located} {error : Error}

theorem compile_of_scan (scanned : Token.scan source.toList = .ok tokens) :
    compile source =
      match Expr.ofTokens tokens with
      | .error error => .error error
      | .ok (expr, slots) => .ok (ofExpr source expr slots) := by
  cases read : Expr.ofTokens tokens with
  | error error => simp only [compile, scanned, read]
  | ok found => simp only [compile, scanned, read]

theorem compile_eq_error_iff (scanned : Token.scan source.toList = .ok tokens) :
    compile source = .error error ↔ Expr.ofTokens tokens = .error error := by
  rw [compile_of_scan scanned]
  cases Expr.ofTokens tokens with
  | error other => simp
  | ok found => simp

theorem exists_compile_iff (scanned : Token.scan source.toList = .ok tokens) :
    (∃ program, compile source = .ok program) ↔ ∃ found, Expr.ofTokens tokens = .ok found := by
  rw [compile_of_scan scanned]
  cases Expr.ofTokens tokens with
  | error other => simp
  | ok found => simp

/-- What is not refused for good is compiled or ends too early. -/
theorem viable_of_not_refused
    (unrefused : ∀ error, compile source = .error error → error = .unexpectedEnd) :
    (∃ program, compile source = .ok program) ∨ compile source = .error .unexpectedEnd := by
  cases result : compile source with
  | ok program => exact .inl ⟨program, rfl⟩
  | error error =>
      rw [unrefused error result]
      exact .inr rfl

/-- Splitting goes on behind the tokens of a source. -/
theorem scan_append (scanned : Token.scan source.toList = .ok tokens) (more : String) :
    Token.scan (source ++ " " ++ more).toList =
      Token.scanFrom tokens.reverse (0 + Text.byteCount source.toList + 1) more.toList := by
  have split : (source ++ " " ++ more).toList = source.toList ++ ' ' :: more.toList := by simp
  have written := Token.written_of_scan scanned
  rw [Token.scan, split, Token.scanFrom_append_blank written, List.append_nil]

/-- The tokens of a longer source are those of the source and others behind them. -/
theorem exists_append_of_scan (scanned : Token.scan source.toList = .ok tokens) {more : String}
    {whole : List Located} (scannedWhole : Token.scan (source ++ " " ++ more).toList = .ok whole) :
    ∃ later, whole = tokens ++ later := by
  rw [scan_append scanned] at scannedWhole
  rcases Token.written_of_scanFrom scannedWhole with ⟨later, rfl, -⟩
  exact ⟨later, by simp⟩

/-- The tokens of a text are found behind those of the source. -/
theorem exists_scan_append (scanned : Token.scan source.toList = .ok tokens) {more : String}
    {others : List Token} (written : Token.Writes others more.toList) :
    ∃ later, later.map Located.token = others ∧
      Token.scan (source ++ " " ++ more).toList = .ok (tokens ++ later) := by
  rcases written _ with ⟨later, same, placed⟩
  refine ⟨later, same, ?_⟩
  rw [scan_append scanned, Token.scanFrom_of_written placed, List.reverse_reverse]

/-- A source that is compiled or ends too early has a continuation that is compiled. -/
theorem exists_continuation (scanned : Token.scan source.toList = .ok tokens)
    (viable : (∃ program, compile source = .ok program) ∨
      compile source = .error .unexpectedEnd) :
    ∃ more program, compile (source ++ " " ++ more) = .ok program := by
  have completed : ∃ more formula, (∀ token ∈ more, token ∈ Token.fillers) ∧
      IsExpr (tokens.map Located.token ++ more) formula := by
    rcases viable with compiled | early
    · rcases (exists_compile_iff scanned).mp compiled with ⟨found, read⟩
      rcases Expr.exists_isExpr_of_ofTokens read with ⟨formula, derived⟩
      refine ⟨[], formula, by simp, ?_⟩
      rw [List.append_nil]
      exact derived
    · exact Expr.exists_isExpr_of_unexpectedEnd ((compile_eq_error_iff scanned).mp early)
  rcases completed with ⟨more, formula, fills, derived⟩
  rcases Token.exists_writes_of_fillers fills with ⟨text, written⟩
  rw [← String.toList_ofList (l := text)] at written
  rcases exists_scan_append scanned written with ⟨later, same, scannedWhole⟩
  rw [← same, ← List.map_append] at derived
  exact ⟨String.ofList text, _, compile_of_isExpr scannedWhole derived⟩

/-- An error other than an early end is the error of every continuation. -/
theorem compile_append_of_error (scanned : Token.scan source.toList = .ok tokens)
    (failed : compile source = .error error) (hard : error ≠ .unexpectedEnd) {more : String}
    {others : List Located} (scannedMore : Token.scan more.toList = .ok others) :
    compile (source ++ " " ++ more) = .error error := by
  have written := (Token.written_of_scan scannedMore).writes
  rcases exists_scan_append scanned written with ⟨later, -, scannedWhole⟩
  rw [compile_eq_error_iff scannedWhole]
  exact Expr.ofTokens_append_of_error ((compile_eq_error_iff scanned).mp failed) hard later

/-- A refused source has no continuation that is compiled. -/
theorem viable_of_continuation (scanned : Token.scan source.toList = .ok tokens) {more : String}
    {program : Program} (compiled : compile (source ++ " " ++ more) = .ok program) :
    (∃ program, compile source = .ok program) ∨ compile source = .error .unexpectedEnd := by
  apply viable_of_not_refused
  intro error refused
  apply Decidable.byContradiction
  intro hard
  rcases exists_isExpr_of_compile compiled with ⟨whole, -, scannedWhole, -, -⟩
  rcases exists_append_of_scan scanned scannedWhole with ⟨later, rfl⟩
  have failed := (compile_eq_error_iff scanned).mp refused
  have failedWhole := Expr.ofTokens_append_of_error failed hard later
  rw [(compile_eq_error_iff scannedWhole).mpr failedWhole] at compiled
  cases compiled

/-- Where an error has a position, a token stands, and what stands before it is not refused. -/
theorem exists_token_of_error (scanned : Token.scan source.toList = .ok tokens)
    (failed : compile source = .error error) {offset : Nat}
    (placed : error.offset? = some offset) :
    (∃ located ∈ tokens, located.offset = offset) ∧
      ∃ before after, source = before ++ after ∧ before.utf8ByteSize = offset ∧
        ((∃ program, compile before = .ok program) ∨
          compile before = .error .unexpectedEnd) := by
  have failedTokens := (compile_eq_error_iff scanned).mp failed
  rcases Expr.exists_mem_of_ofTokens_error failedTokens placed with ⟨located, member, rfl⟩
  refine ⟨⟨located, member, rfl⟩, ?_⟩
  rcases List.append_of_mem member with ⟨front, later, rfl⟩
  have written := Token.written_of_scan scanned
  rcases written.exists_cut with ⟨head, tail, split, cut, position⟩
  rw [Nat.zero_add] at position
  have scannedFront : Token.scan (String.ofList head).toList = .ok front := by
    rw [String.toList_ofList]
    exact Token.scan_of_written cut
  refine ⟨String.ofList head, String.ofList tail, ?_, ?_, ?_⟩
  · rw [← String.ofList_append, ← split, String.ofList_toList]
  · rw [Text.utf8ByteSize_ofList, position]
  apply viable_of_not_refused
  intro other refused
  apply Decidable.byContradiction
  intro hard
  -- the whole source would have this error, at a token of the front
  have failedFront := (compile_eq_error_iff scannedFront).mp refused
  have same := Expr.ofTokens_append_of_error failedFront hard (located :: later)
  rw [failedTokens] at same
  cases same
  rcases Expr.exists_mem_of_ofTokens_error failedFront placed with ⟨blamed, inFront, equal⟩
  have before := cut.offset_lt blamed inFront
  omega

/-- For every source whose tokens can be found: it has a continuation that is compiled if and only
if it is compiled itself or ends too early; an unexpected token or unknown name is reported at a
token before which the source is compiled or ends too early; and any error but that of an early end
is kept by every continuation whose tokens can be found. -/
theorem errors_of_scan (scanned : Token.scan source.toList = .ok tokens) :
    ((∃ more program, compile (source ++ " " ++ more) = .ok program) ↔
        (∃ program, compile source = .ok program) ∨ compile source = .error .unexpectedEnd) ∧
      (∀ offset : Nat, (compile source = .error (.unexpectedToken offset) ∨
          ∃ name, compile source = .error (.unknownName offset name)) →
        (∃ located ∈ tokens, located.offset = offset) ∧
          ∃ before after, source = before ++ after ∧ before.utf8ByteSize = offset ∧
            ((∃ program, compile before = .ok program) ∨
              compile before = .error .unexpectedEnd)) ∧
      ∀ error : Error, compile source = .error error → error ≠ .unexpectedEnd →
        ∀ (more : String) (others : List Located), Token.scan more.toList = .ok others →
          compile (source ++ " " ++ more) = .error error := by
  refine ⟨⟨?_, exists_continuation scanned⟩, ?_, ?_⟩
  · rintro ⟨more, program, compiled⟩
    exact viable_of_continuation scanned compiled
  · rintro offset (failed | ⟨name, failed⟩)
    · exact exists_token_of_error scanned failed rfl
    · exact exists_token_of_error scanned failed rfl
  · intro error failed hard more others scannedMore
    exact compile_append_of_error scanned failed hard scannedMore

/-- A source that ends inside a comparison in a group, and one in which a name follows there. -/
theorem errors_of_scan_comparison :
    let early := "let v = value in (v ==="
    let refused := "let v = value in (v === x"
    let tokens : List Located :=
      [⟨0, .reserved .letWord⟩, ⟨4, .name "v"⟩, ⟨6, .assign⟩, ⟨8, .name "value"⟩,
        ⟨14, .reserved .inWord⟩, ⟨17, .openParen⟩, ⟨18, .name "v"⟩, ⟨20, .same⟩]
    Token.scan early.toList = .ok tokens ∧
      compile early = .error .unexpectedEnd ∧
      (∃ more program, compile (early ++ " " ++ more) = .ok program) ∧
      Token.scan refused.toList = .ok (tokens ++ [⟨24, .name "x"⟩]) ∧
      compile refused = .error (.unexpectedToken 24) ∧
      (∃ before after, refused = before ++ after ∧ before.utf8ByteSize = 24 ∧
        ((∃ program, compile before = .ok program) ∨ compile before = .error .unexpectedEnd)) ∧
      ∀ (more : String) (others : List Located), Token.scan more.toList = .ok others →
        compile (refused ++ " " ++ more) = .error (.unexpectedToken 24) := by
  intro early refused tokens
  have earlyScanned : Token.scan early.toList = .ok tokens := by decide +kernel
  have earlyFails : compile early = .error .unexpectedEnd := by decide +kernel
  have refusedScanned : Token.scan refused.toList = .ok (tokens ++ [⟨24, .name "x"⟩]) := by
    decide +kernel
  have refusedFails : compile refused = .error (.unexpectedToken 24) := by decide +kernel
  rcases errors_of_scan earlyScanned with ⟨continues, -, -⟩
  rcases errors_of_scan refusedScanned with ⟨-, placed, kept⟩
  exact ⟨earlyScanned, earlyFails, continues.mpr (.inr earlyFails), refusedScanned, refusedFails,
    (placed 24 (.inl refusedFails)).2, kept _ refusedFails nofun⟩

end Program

end JsonShape
