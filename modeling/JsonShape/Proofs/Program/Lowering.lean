import JsonShape.Proofs.Program.Moments

/-!
# Tasks and pieces

The tasks of an expression append the piece of that expression to whatever code is there, and
leave the branches that were waiting before as they are. What they do on the way is said by
`Appends`: each branch of the piece begins to wait once and is patched once, to the target that it
has in the piece, and the two branches of a conditional are exchanged when both wait on top.

The proof follows the expression. For the parts of a conjunction the induction runs over the parts
behind the first, because their branches are patched in the opposite order, all to one target.
-/

namespace JsonShape

open Check

namespace Lowering

/-- Whatever has been done before, the tasks of the expression append its piece. -/
structure Produces (expr : Expr) : Prop where
  lower : ∀ state : State,
    Appends expr.parts state [.lower expr] (expr.piece state.code.offsets false)
  inverted : ∀ (state : State) (inverted : Bool),
    Appends expr.parts state [.lowerInverted expr inverted] (expr.piece state.code.offsets inverted)

/-- An expression that is no negation is produced first and inverted afterwards. -/
theorem produces_of_lower {expr : Expr} (piece : Offsets → Piece)
    (other : ∀ operand, expr ≠ .not operand)
    (inverts : ∀ start inverted, expr.piece start inverted = (piece start).invertIf inverted)
    (lower : ∀ state : State, Appends expr.parts state [.lower expr] (piece state.code.offsets)) :
    Produces expr := by
  have steps (state : State) (inverted : Bool) : step state (.lowerInverted expr inverted) =
      (state, if inverted then [.lower expr, .emit .not] else [.lower expr]) := by
    cases expr with
    | not operand => exact absurd rfl (other operand)
    | _ => rfl
  refine ⟨fun state => ?_, fun state inverted => ?_⟩
  · rw [inverts]
    exact lower state
  · rw [inverts]
    apply Appends.of_step rfl (steps state inverted)
    cases inverted with
    | false => exact lower state
    | true =>
        refine (lower state).append (.of_branchless rfl ?_ fun _ => rfl)
        rw [step, Code.emit_eq_add]
        rfl

/-- The parts of a conjunction behind its first part append their pieces, each behind a branch to
the end. -/
def ProducesParts (rest : List Expr) : Prop :=
  ∀ state : State,
    let pieces := Expr.pieces state.code.offsets.next rest
    Appends (Expr.partsAll rest) state (partTasks rest ++ List.replicate rest.length .patch)
      (Piece.guarded (state.code.ops.size + Piece.guardedLength pieces) pieces)

theorem producesParts_nil : ProducesParts [] :=
  fun state => .nil [] state

theorem producesParts_cons {part : Expr} {rest : List Expr} (first : Produces part)
    (others : ProducesParts rest) : ProducesParts (part :: rest) := by
  intro state pieces
  let head := part.piece state.code.offsets.next false
  let tail := Expr.pieces (state.code.offsets.next.after head 1) rest
  let behind := (state.await .ifFalse).add head
  let target := behind.code.ops.size + Piece.guardedLength tail
  have headAppends : Appends (Expr.partsAll (part :: rest)) (state.await .ifFalse) [.lower part]
      head := by
    have appends := first.lower (state.await .ifFalse)
    rw [State.offsets_await] at appends
    exact appends.mono (List.subset_append_left _ _)
  have tailAppends : Appends (Expr.partsAll (part :: rest)) behind
      (partTasks rest ++ List.replicate rest.length .patch) (Piece.guarded target tail) := by
    have appends := others behind
    rw [State.offsets_add, State.offsets_await, ← Offsets.after_one] at appends
    exact appends.mono (List.subset_append_right _ _)
  have landing : state.code.ops.size + 1 + (head ++ Piece.guarded target tail).ops.length =
      target := by
    rw [Piece.ops_append, List.length_append, Piece.length_ops_guarded, ← Nat.add_assoc]
    simp [target, behind]
  have whole : state.code.ops.size + Piece.guardedLength (head :: tail) = target := by
    simp only [Piece.guardedLength, target, behind, State.size_add, State.size_await]
    omega
  -- the branch of this part waits until the branches of all later parts are patched
  have appends := (headAppends.append tailAppends).around
  rw [landing] at appends
  change Appends _ _ _ (Piece.guarded (_ + Piece.guardedLength (head :: tail)) (head :: tail))
  rw [whole, Piece.guarded, Piece.append_assoc]
  simpa [partTasks, List.replicate_succ'] using appends

/-- The tasks of a conditional with a constant consequent. -/
theorem appends_shortCircuit {condition alternative : Expr} (test : Produces condition)
    (otherwise : Produces alternative) {parts : List Expr} (within : condition.parts ⊆ parts)
    (withinOther : alternative.parts ⊆ parts) (inverted : Bool) (branch : Branch) (state : State) :
    let first := condition.piece state.code.offsets inverted
    let second := alternative.piece (state.code.offsets.after first 1) false
    let target := state.code.offsets.ops + first.ops.length + 1 + second.ops.length
    Appends parts state
      [.lowerInverted condition inverted, .jump branch, .lower alternative, .patch]
      (first ++ Piece.ofOp (.jump branch target) ++ second) := by
  intro first second target
  have testAppends := (test.inverted state inverted).mono within
  have otherAppends := (otherwise.lower ((state.add first).await branch)).mono withinOther
  rw [State.offsets_await, State.offsets_add, ← Offsets.after_one] at otherAppends
  have appends := testAppends.append otherAppends.around
  rw [State.size_add, ← Piece.append_assoc] at appends
  exact appends

/-- The tasks of a conditional in general. -/
theorem appends_conditional {condition consequent alternative : Expr} (test : Produces condition)
    (whenTrue : Produces consequent) (whenFalse : Produces alternative) (state : State) :
    let first := condition.piece state.code.offsets false
    let tested := state.add first
    let second := consequent.piece (tested.await .ifFalse).code.offsets false
    let target := tested.code.ops.size + 1 + second.ops.length + 1
    let settled := tested.add (Piece.ofOp (.jump .ifFalse target) ++ second)
    let third := alternative.piece (settled.await .always).code.offsets false
    let stop := target + third.ops.length
    Appends (Expr.parts (.cond condition consequent alternative)) state
      [.lower condition, .jump .ifFalse, .lower consequent, .jump .always, .swap, .patch,
        .lower alternative, .patch]
      (first ++ Piece.ofOp (.jump .ifFalse target) ++ second ++
        Piece.ofOp (.jump .always stop) ++ third) := by
  intro first tested second target settled third stop later
  let parts := Expr.parts (.cond condition consequent alternative)
  rcases Expr.parts_subset_cond condition consequent alternative with
    ⟨withinTest, withinTrue, withinFalse⟩
  have member : Expr.cond condition consequent alternative ∈ parts := by simp [parts, Expr.parts]
  have kept := State.Extends.refl state
  have keptTested : state.Extends tested := kept.add first
  have keptSettled : state.Extends settled := keptTested.add _
  let exchanging : List Task := .swap :: .patch :: .lower alternative :: .patch :: later
  have tests := ((test.lower state).carries withinTest kept _).trans
    (carries_jump parts keptTested .ifFalse (.lower consequent :: .jump .always :: exchanging))
  have chooses := ((whenTrue.lower _).carries withinTrue (keptTested.await .ifFalse) _).trans
    (carries_jump parts ((keptTested.await .ifFalse).add second) .always exchanging)
  have exchanges := carries_exchange kept member later
  have alternates := ((whenFalse.lower _).carries withinFalse (keptSettled.await .always) _).trans
    (carries_patch parts keptSettled .always third later)
  have all := ((tests.trans chooses).trans exchanges).trans alternates
  have position : tested.code.ops.size = state.code.ops.size + first.ops.length :=
    State.size_add state first
  have chosen : ((tested.await .ifFalse).add second).code.ops.size =
      tested.code.ops.size + 1 + second.ops.length := by
    rw [State.size_add, State.size_await]
  have behind : settled.code.ops.size = tested.code.ops.size + 1 + second.ops.length := by
    simp [settled, Nat.add_assoc, Nat.add_comm 1]
  have landing : settled.code.ops.size + 1 + third.ops.length = stop := by rw [behind]
  have appended : state.add (first ++ Piece.ofOp (.jump .ifFalse target) ++ second ++
      Piece.ofOp (.jump .always stop) ++ third) =
        settled.add (Piece.ofOp (.jump .always stop) ++ third) := by
    rw [← State.add_append, ← State.add_append]
    simp only [Piece.append_assoc]
  rw [landing, chosen, State.size_await, State.size_await, behind] at all
  rw [appended, Piece.branches_conditional, ← position]
  simp only [List.map_append, List.map_cons, List.append_nil, List.append_assoc, List.cons_append,
    List.nil_append] at all ⊢
  -- the branch around the consequent is patched behind it, and the other behind the alternative
  have order := List.perm_append_singleton (tested.code.ops.size + 1 + second.ops.length, stop)
    (third.branches (tested.code.ops.size + 1 + second.ops.length + 1))
  exact all.perm ((List.perm_middle.trans ((order.append_left _).cons _)).append_left _)

theorem produces_constant (value : Bool) : Produces (.constant value) := by
  refine produces_of_lower (fun _ => Piece.ofOp (.constant value)) nofun (fun _ _ => rfl) ?_
  intro state
  refine .of_branchless rfl ?_ fun _ => rfl
  rw [State.add, ← Code.emit_eq_add]
  rfl

theorem produces_test (slot : Nat) (test : Test) : Produces (.test slot test) := by
  refine produces_of_lower (Piece.ofTest · slot test) nofun (fun _ _ => rfl) ?_
  intro state
  refine .of_branchless rfl ?_ fun _ => ?_
  · rw [State.add, ← Code.emitTest_eq_add]
    rfl
  · cases test <;> rfl

theorem produces_not {operand : Expr} (inner : Produces operand) : Produces (.not operand) := by
  have within : operand.parts ⊆ Expr.parts (.not operand) := List.subset_cons_self _ _
  refine ⟨fun state => ?_, fun state inverted => ?_⟩
  · exact .of_step rfl rfl ((inner.inverted state true).mono within)
  · exact .of_step rfl rfl ((inner.inverted state !inverted).mono within)

theorem produces_and {first : Expr} {rest : List Expr} (head : Produces first)
    (others : ProducesParts rest) : Produces (.and first rest) := by
  refine produces_of_lower _ nofun (fun _ _ => rfl) ?_
  intro state
  have firstAppends := (head.lower state).mono (List.subset_append_left _ (Expr.partsAll rest))
  have othersAppend := (others (state.add (first.piece state.code.offsets false))).mono
    (List.subset_append_right first.parts _)
  rw [State.offsets_add, ← Offsets.after_one, State.size_add] at othersAppend
  exact .of_step rfl rfl ((firstAppends.append othersAppend).mono (List.subset_cons_self _ _))

theorem produces_cond {condition consequent alternative : Expr} (test : Produces condition)
    (whenTrue : Produces consequent) (whenFalse : Produces alternative) :
    Produces (.cond condition consequent alternative) := by
  rcases Expr.parts_subset_cond condition consequent alternative with ⟨withinTest, -, withinFalse⟩
  -- a constant consequent is not produced at all, and its value chooses the branch
  cases consequent with
  | constant value =>
      cases value with
      | false =>
          refine produces_of_lower _ nofun (fun _ _ => rfl) ?_
          intro state
          exact .of_step rfl rfl
            (appends_shortCircuit test whenFalse withinTest withinFalse true .ifFalse state)
      | true =>
          refine produces_of_lower _ nofun (fun _ _ => rfl) ?_
          intro state
          exact .of_step rfl rfl
            (appends_shortCircuit test whenFalse withinTest withinFalse false .ifTrue state)
  | _ =>
      refine produces_of_lower _ nofun (fun _ _ => rfl) ?_
      intro state
      have appends := appends_conditional test whenTrue whenFalse state
      simp only [State.offsets_await, State.offsets_add, Offsets.after_append, Offsets.after_ofOp,
        ← Offsets.after_one, State.size_add] at appends
      exact .of_step rfl rfl appends

mutual

theorem produces : (expr : Expr) → Produces expr
  | .constant value => produces_constant value
  | .test slot test => produces_test slot test
  | .not operand => produces_not (produces operand)
  | .and first rest => produces_and (produces first) (producesParts rest)
  | .cond condition consequent alternative =>
      produces_cond (produces condition) (produces consequent) (produces alternative)

theorem producesParts : (parts : List Expr) → ProducesParts parts
  | [] => producesParts_nil
  | part :: rest => producesParts_cons (produces part) (producesParts rest)

end

/-- From any state, the tasks of an expression append its piece and leave the waiting branches as
they are. -/
theorem run_lower_eq_add (expr : Expr) (code : Code) (waiting : List Nat) :
    run ⟨code, waiting⟩ [.lower expr] = ⟨code.add (expr.piece code.offsets false), waiting⟩ := by
  rcases (produces expr).lower ⟨code, waiting⟩ [] with ⟨moments, course, -⟩
  have same := course.run_eq
  rw [run] at same
  exact same

/-- From any state, an expression is produced in finitely many steps: they append the piece that
recursion on the expression gives, and the branches that waited before still wait. Every branch of
the piece begins to wait once and is patched once, to its target in the piece. At every moment the
earlier code and the earlier waiting branches are there; only the two branches of one conditional
are ever exchanged, and only a branch of the piece without a target is ever patched. -/
theorem exists_orderly_course (expr : Expr) (code : Code) (waiting : List Nat) :
    let piece := expr.piece code.offsets false
    let branches := piece.branches code.ops.size
    let start : State := ⟨code, waiting⟩
    let last : State := ⟨code.add piece, waiting⟩
    run start [.lower expr] = last ∧ (branches.map Prod.fst).Nodup ∧
      ∃ moments, Course ⟨start, [.lower expr]⟩ moments ⟨last, []⟩ ∧
        moments.length ≤ 8 * expr.size ∧
        moments.filterMap Moment.jumped? = branches.map Prod.fst ∧
        (moments.filterMap Moment.patched?).Perm branches ∧
        ∀ moment ∈ moments, moment.Orderly expr.parts start := by
  intro piece branches start last
  rcases (produces expr).lower start [] with ⟨moments, course, jumps, patches, orderly⟩
  refine ⟨run_lower_eq_add expr code waiting, piece.nodup_branches _, moments, course, ?_, jumps,
    patches, orderly⟩
  exact course.length_le

end Lowering

namespace Check.Expr

/-- The piece of an expression that stands alone. -/
def whole (expr : Expr) : Piece :=
  expr.piece ⟨0, 0, 0⟩ false

theorem lower_eq_add_whole (expr : Expr) : expr.lower = Code.empty.add expr.whole := by
  change (Lowering.run ⟨Code.empty, []⟩ [.lower expr]).code = _
  rw [Lowering.run_lower_eq_add]
  rfl

end Check.Expr

/-- The program of an expression holds the piece of the expression and nothing else. -/
theorem Program.ofExpr_eq (source : String) (expr : Expr) (slots : Array Slot) :
    ofExpr source expr slots =
      ⟨expr.whole.ops.toArray, slots, expr.whole.keys.toArray, expr.whole.keySets.toArray,
        source⟩ := by
  simp [ofExpr, expr.lower_eq_add_whole, Code.add, Code.empty]

end JsonShape
