import JsonShape.Proofs.Program.Pieces

/-!
# Moments of the production of code

Carrying out tasks leads from moment to moment, where a moment is a state and the tasks that are
left (`Course`). At some moments a branch begins to wait and at some a branch is patched
(`Moment.jumped?`, `Moment.patched?`), and `Moment.Orderly` says what is true of all of them: the
state extends the one from which the tasks began, an exchange is one of the two branches of a single
conditional, and a patch finds a branch on top that still has no target.

`Appends` says of tasks that they append a piece at orderly moments and patch each branch of the
piece once. Tasks in a row append pieces in a row (`Appends.append`), and a branch that waits during
some tasks and is patched behind them leads around their piece (`Appends.around`).
-/

namespace JsonShape

open Check

namespace Check.Expr

mutual

/-- An expression and all expressions inside it. -/
def parts : Expr → List Expr
  | .constant value => [.constant value]
  | .test slot asked => [.test slot asked]
  | .not operand => .not operand :: parts operand
  | .and first rest => .and first rest :: (parts first ++ partsAll rest)
  | .cond condition consequent alternative =>
      .cond condition consequent alternative ::
        (parts condition ++ parts consequent ++ parts alternative)

def partsAll : List Expr → List Expr
  | [] => []
  | first :: rest => parts first ++ partsAll rest

end

theorem parts_subset_cond (condition consequent alternative : Expr) :
    condition.parts ⊆ (Expr.cond condition consequent alternative).parts ∧
      consequent.parts ⊆ (Expr.cond condition consequent alternative).parts ∧
      alternative.parts ⊆ (Expr.cond condition consequent alternative).parts := by
  refine ⟨?_, ?_, ?_⟩ <;> intro part inside <;> simp [parts, inside]

end Check.Expr

namespace Lowering

theorem run_cons (state : State) (task : Task) (tasks : List Task) :
    run state (task :: tasks) = run (step state task).1 ((step state task).2 ++ tasks) := by
  rw [run]

namespace State

/-- The state with a piece behind its code. -/
def add (state : State) (piece : Piece) : State :=
  { state with code := state.code.add piece }

/-- The state behind a branch that begins to wait. -/
def await (state : State) (branch : Branch) : State :=
  ⟨state.code.add (Piece.ofOp (.jump branch 0)), state.code.ops.size :: state.waiting⟩

theorem add_append (state : State) (first second : Piece) :
    state.add (first ++ second) = (state.add first).add second := by
  simp only [add, Code.add_append]

@[simp]
theorem offsets_add (state : State) (piece : Piece) :
    (state.add piece).code.offsets = state.code.offsets.after piece 0 :=
  Code.offsets_add state.code piece

@[simp]
theorem size_add (state : State) (piece : Piece) :
    (state.add piece).code.ops.size = state.code.ops.size + piece.ops.length :=
  Code.size_ops_add state.code piece

@[simp]
theorem offsets_await (state : State) (branch : Branch) :
    (state.await branch).code.offsets = state.code.offsets.next :=
  Code.offsets_add_ofOp state.code (.jump branch 0)

@[simp]
theorem size_await (state : State) (branch : Branch) :
    (state.await branch).code.ops.size = state.code.ops.size + 1 :=
  Code.size_ops_add state.code (Piece.ofOp (.jump branch 0))

/-- A state has the code of another and perhaps a piece behind it, and the branches that wait in the
other and perhaps some on top of them. -/
def Extends (start state : State) : Prop :=
  ∃ piece more, state = ⟨start.code.add piece, more ++ start.waiting⟩

namespace Extends

variable {first second third : State}

theorem refl (state : State) : state.Extends state :=
  ⟨Piece.empty, [], by simp⟩

theorem trans (earlier : first.Extends second) (later : second.Extends third) :
    first.Extends third := by
  rcases earlier with ⟨piece, more, rfl⟩
  rcases later with ⟨next, others, rfl⟩
  exact ⟨piece ++ next, others ++ more, by simp [Code.add_append]⟩

theorem add (extended : first.Extends second) (piece : Piece) : first.Extends (second.add piece) :=
  extended.trans ⟨piece, [], rfl⟩

theorem await (extended : first.Extends second) (branch : Branch) :
    first.Extends (second.await branch) :=
  extended.trans ⟨Piece.ofOp (.jump branch 0), [second.code.ops.size], rfl⟩

theorem waiting_suffix (extended : first.Extends second) : first.waiting <:+ second.waiting := by
  rcases extended with ⟨_, more, rfl⟩
  exact List.suffix_append more first.waiting

end Extends

end State

/-- A state, and the tasks that are left in it. -/
structure Moment where
  state : State
  tasks : List Task

/-- The moments from one on until another is reached, which is left out. -/
inductive Course : Moment → List Moment → Moment → Prop
  | done (moment : Moment) : Course moment [] moment
  | step {state : State} {task : Task} {tasks : List Task} {moments : List Moment} {last : Moment}
      (later : Course ⟨(step state task).1, (step state task).2 ++ tasks⟩ moments last) :
      Course ⟨state, task :: tasks⟩ (⟨state, task :: tasks⟩ :: moments) last

namespace Course

variable {first middle last : Moment} {moments others : List Moment}

theorem trans (earlier : Course first moments middle) (later : Course middle others last) :
    Course first (moments ++ others) last := by
  induction earlier with
  | done => exact later
  | step _ ih => exact .step (ih later)

theorem run_eq (course : Course first moments last) :
    run first.state first.tasks = run last.state last.tasks := by
  induction course with
  | done => rfl
  | step _ ih => rw [run_cons, ih]

/-- There are no more moments than the weight of the tasks that are done. -/
theorem length_le (course : Course first moments last) :
    moments.length + weight last.tasks ≤ weight first.tasks := by
  induction course with
  | done => simp
  | @step state task tasks moments last _ ih =>
      have smaller := weight_step_lt state task
      simp only [weight_append, weight, List.length_cons] at ih ⊢
      omega

end Course

namespace Moment

/-- The position at which a branch begins to wait. -/
def jumped? : Moment → Option Nat
  | ⟨state, .jump _ :: _⟩ => some state.code.ops.size
  | _ => none

/-- The position of a branch that is patched, and the target that it gets. -/
def patched? (moment : Moment) : Option (Nat × Nat) :=
  match moment.tasks, moment.state.waiting with
  | .patch :: _, position :: _ => some (position, moment.state.code.ops.size)
  | _, _ => none

/-- The moment at which the two branches of a conditional are exchanged, if its tasks began in a
given state: the condition has been produced, a branch waits behind it, the consequent has been
produced, and a branch waits behind that. -/
def exchange (condition consequent alternative : Expr) (before : State) (later : List Task) :
    Moment :=
  let tested := before.add (condition.piece before.code.offsets false)
  let branched := tested.await .ifFalse
  let chosen := branched.add (consequent.piece branched.code.offsets false)
  ⟨chosen.await .always, .swap :: .patch :: .lower alternative :: .patch :: later⟩

/-- What holds at each moment when the tasks of some expressions have begun in a given state. -/
structure Orderly (parts : List Expr) (start : State) (moment : Moment) : Prop where
  kept : start.Extends moment.state
  /-- Two branches of one conditional are exchanged, both on top of those that waited before. -/
  swap : ∀ tasks, moment.tasks = .swap :: tasks →
    ∃ condition consequent alternative before later,
      Expr.cond condition consequent alternative ∈ parts ∧ start.Extends before ∧
        moment = exchange condition consequent alternative before later ∧
        start.waiting.length + 2 ≤ moment.state.waiting.length
  /-- A branch that waits on top of those that waited before, and has no target yet, is patched. -/
  patch : ∀ tasks, moment.tasks = .patch :: tasks →
    ∃ position waiting branch,
      moment.state.waiting = position :: waiting ∧ start.waiting <:+ waiting ∧
        moment.state.code.ops[position]? = some (.jump branch 0)

theorem Orderly.of_kept {parts : List Expr} {start state : State} {task : Task}
    (kept : start.Extends state) (noSwap : task ≠ .swap) (noPatch : task ≠ .patch)
    (tasks : List Task) : Orderly parts start ⟨state, task :: tasks⟩ :=
  ⟨kept, fun _ next => absurd (List.cons.inj next).1 noSwap,
    fun _ next => absurd (List.cons.inj next).1 noPatch⟩

theorem Orderly.mono {parts others : List Expr} {earlier start : State} {moment : Moment}
    (orderly : moment.Orderly parts start) (within : parts ⊆ others)
    (extended : earlier.Extends start) : moment.Orderly others earlier := by
  refine ⟨extended.trans orderly.kept, ?_, ?_⟩
  · intro tasks next
    rcases orderly.swap tasks next with
      ⟨condition, consequent, alternative, before, later, member, kept, isExchange, enough⟩
    have fewer := extended.waiting_suffix.length_le
    exact ⟨condition, consequent, alternative, before, later, within member,
      extended.trans kept, isExchange, by omega⟩
  · intro tasks next
    rcases orderly.patch tasks next with ⟨position, waiting, branch, top, kept, found⟩
    exact ⟨position, waiting, branch, top, extended.waiting_suffix.trans kept, found⟩

end Moment

/-- Tasks that leave the branches alone. -/
def Task.isQuiet : Task → Bool
  | .lower _ | .lowerInverted _ _ | .emit _ => true
  | .jump _ | .swap | .patch => false

/-- The tasks lead from one moment to another, past moments that satisfy a condition. On the way the
given positions begin to wait, and the given branches are patched in some order. -/
def Carries (good : Moment → Prop) (first : Moment) (jumped : List Nat)
    (patched : List (Nat × Nat)) (last : Moment) : Prop :=
  ∃ moments, Course first moments last ∧ moments.filterMap Moment.jumped? = jumped ∧
    (moments.filterMap Moment.patched?).Perm patched ∧ ∀ moment ∈ moments, good moment

namespace Carries

variable {good : Moment → Prop} {first middle last : Moment} {jumped positions : List Nat}
  {patched branches : List (Nat × Nat)}

theorem trans (earlier : Carries good first jumped patched middle)
    (later : Carries good middle positions branches last) :
    Carries good first (jumped ++ positions) (patched ++ branches) last := by
  rcases earlier with ⟨moments, course, rfl, patches, allGood⟩
  rcases later with ⟨others, further, rfl, morePatches, othersGood⟩
  refine ⟨moments ++ others, course.trans further, List.filterMap_append, ?_, ?_⟩
  · rw [List.filterMap_append]
    exact patches.append morePatches
  · intro moment member
    rcases List.mem_append.mp member with before | behind
    · exact allGood moment before
    · exact othersGood moment behind

theorem mono {better : Moment → Prop} (carries : Carries good first jumped patched last)
    (implies : ∀ moment, good moment → better moment) :
    Carries better first jumped patched last := by
  rcases carries with ⟨moments, course, jumps, patches, allGood⟩
  exact ⟨moments, course, jumps, patches,
    fun moment member => implies moment (allGood moment member)⟩

theorem perm (carries : Carries good first jumped patched last) (same : patched.Perm branches) :
    Carries good first jumped branches last := by
  rcases carries with ⟨moments, course, jumps, patches, allGood⟩
  exact ⟨moments, course, jumps, patches.trans same, allGood⟩

theorem step {state next : State} {task : Task} {tasks replaced : List Task}
    (steps : Lowering.step state task = (next, replaced)) (isGood : good ⟨state, task :: tasks⟩)
    (jumps : (Moment.jumped? ⟨state, task :: tasks⟩).toList = jumped)
    (patches : (Moment.patched? ⟨state, task :: tasks⟩).toList = patched) :
    Carries good ⟨state, task :: tasks⟩ jumped patched ⟨next, replaced ++ tasks⟩ := by
  have course :
      Course ⟨state, task :: tasks⟩ [⟨state, task :: tasks⟩] ⟨next, replaced ++ tasks⟩ := by
    apply Course.step
    rw [steps]
    exact .done _
  refine ⟨_, course, ?_, ?_, ?_⟩
  · rw [← jumps, List.filterMap_cons, List.filterMap_nil]
    cases Moment.jumped? ⟨state, task :: tasks⟩ <;> rfl
  · rw [← patches, List.filterMap_cons, List.filterMap_nil]
    cases Moment.patched? ⟨state, task :: tasks⟩ <;> rfl
  · intro moment member
    rw [List.mem_singleton.mp member]
    exact isGood

end Carries

/-! ### Single tasks -/

section Tasks

variable {parts : List Expr} {start state next : State} {tasks replaced : List Task}

theorem carries_quiet {task : Task} (quiet : task.isQuiet = true) (kept : start.Extends state)
    (steps : step state task = (next, replaced)) :
    Carries (Moment.Orderly parts start) ⟨state, task :: tasks⟩ [] []
      ⟨next, replaced ++ tasks⟩ := by
  cases task with
  | lower | lowerInverted | emit =>
      exact .step steps (.of_kept kept (by simp) (by simp) tasks) rfl rfl
  | jump | swap | patch => cases quiet

theorem carries_jump (parts : List Expr) (kept : start.Extends state) (branch : Branch)
    (tasks : List Task) :
    Carries (Moment.Orderly parts start) ⟨state, .jump branch :: tasks⟩ [state.code.ops.size] []
      ⟨state.await branch, tasks⟩ := by
  have steps : step state (.jump branch) = (state.await branch, []) := by
    rw [State.await, ← Code.emit_eq_add]
    rfl
  exact .step steps (.of_kept kept (by simp) (by simp) tasks) rfl rfl

/-- A branch that waits in front of a piece is made to lead behind the piece. -/
theorem carries_patch (parts : List Expr) (kept : start.Extends state) (branch : Branch)
    (piece : Piece) (tasks : List Task) :
    let target := state.code.ops.size + 1 + piece.ops.length
    Carries (Moment.Orderly parts start) ⟨(state.await branch).add piece, .patch :: tasks⟩ []
      [(state.code.ops.size, target)]
      ⟨state.add (Piece.ofOp (.jump branch target) ++ piece), tasks⟩ := by
  intro target
  have whole : ((state.await branch).add piece).code =
      state.code.add (Piece.ofOp (.jump branch 0) ++ piece) := (Code.add_append _ _ _).symm
  have size : ((state.await branch).add piece).code.ops.size = target := by
    simp [whole, target, Nat.add_assoc, Nat.add_comm 1]
  have found : ((state.await branch).add piece).code.ops[state.code.ops.size]? =
      some (.jump branch 0) := by
    simp [whole, Code.add]
  have steps : step ((state.await branch).add piece) .patch =
      (state.add (Piece.ofOp (.jump branch target) ++ piece), []) := by
    rw [State.add, State.add, ← Code.land_add_jump, ← whole]
    rfl
  refine .step steps ⟨(kept.await branch).add piece, fun _ next => ?_, fun _ _ => ?_⟩ rfl ?_
  · simp at next
  · exact ⟨state.code.ops.size, state.waiting, branch, rfl, kept.waiting_suffix, found⟩
  · rw [← size]
    rfl

/-- Behind the consequent of a conditional the branch around it is patched, and the branch behind it
goes on waiting. -/
theorem carries_exchange {condition consequent alternative : Expr} (kept : start.Extends state)
    (member : Expr.cond condition consequent alternative ∈ parts) (later : List Task) :
    let tested := state.add (condition.piece state.code.offsets false)
    let chosen := consequent.piece (tested.await .ifFalse).code.offsets false
    let target := tested.code.ops.size + 1 + chosen.ops.length + 1
    Carries (Moment.Orderly parts start)
      (Moment.exchange condition consequent alternative state later) []
      [(tested.code.ops.size, target)]
      ⟨(tested.add (Piece.ofOp (.jump .ifFalse target) ++ chosen)).await .always,
        .lower alternative :: .patch :: later⟩ := by
  intro tested chosen target
  let exit : Piece := Piece.ofOp (.jump .always 0)
  let last := ((tested.await .ifFalse).add chosen).code.ops.size
  -- the state as if the branch behind the consequent had waited first
  let exchanged : State := ⟨tested.code, last :: state.waiting⟩
  have keptTested := kept.add (condition.piece state.code.offsets false)
  have keptExchanged : start.Extends exchanged := kept.trans ⟨_, [last], rfl⟩
  have fewer := kept.waiting_suffix.length_le
  have swaps : Carries (Moment.Orderly parts start)
      (Moment.exchange condition consequent alternative state later) [] []
      ⟨(exchanged.await .ifFalse).add (chosen ++ exit),
        .patch :: .lower alternative :: .patch :: later⟩ := by
    rw [State.add_append]
    refine .step rfl ⟨((keptTested.await _).add _).await _, fun _ _ => ?_, fun _ next => ?_⟩ rfl rfl
    · exact ⟨condition, consequent, alternative, state, later, member, kept, rfl,
        Nat.add_le_add_right fewer 2⟩
    · simp at next
  have both := swaps.trans (carries_patch parts keptExchanged .ifFalse (chosen ++ exit) _)
  have landing : exchanged.code.ops.size + 1 + (chosen ++ exit).ops.length = target := by
    simp [target, exchanged, exit, Nat.add_assoc]
  have settled : exchanged.add (Piece.ofOp (.jump .ifFalse target) ++ (chosen ++ exit)) =
      (tested.add (Piece.ofOp (.jump .ifFalse target) ++ chosen)).await .always := by
    have size : last =
        (tested.add (Piece.ofOp (.jump .ifFalse target) ++ chosen)).code.ops.size := by
      simp [last, Nat.add_assoc, Nat.add_comm 1]
    rw [State.await, ← size, ← Piece.append_assoc, State.add_append]
    rfl
  rw [landing, settled] at both
  exact both

end Tasks

/-! ### Tasks in a row -/

/-- Whatever tasks follow, the tasks append a piece to the code of a state, at orderly moments. Each
branch of the piece begins to wait once, in order, and is patched once. -/
def Appends (parts : List Expr) (state : State) (tasks : List Task) (piece : Piece) : Prop :=
  ∀ later, Carries (Moment.Orderly parts state) ⟨state, tasks ++ later⟩
    ((piece.branches state.code.ops.size).map Prod.fst) (piece.branches state.code.ops.size)
    ⟨state.add piece, later⟩

namespace Appends

variable {parts others : List Expr} {start state : State} {tasks next : List Task}
  {piece further : Piece}

/-- Appending as a part of what has begun in an earlier state. -/
theorem carries (appends : Appends parts state tasks piece) (within : parts ⊆ others)
    (kept : start.Extends state) (later : List Task) :
    Carries (Moment.Orderly others start) ⟨state, tasks ++ later⟩
      ((piece.branches state.code.ops.size).map Prod.fst) (piece.branches state.code.ops.size)
      ⟨state.add piece, later⟩ :=
  (appends later).mono fun _ orderly => orderly.mono within kept

theorem mono (appends : Appends parts state tasks piece) (within : parts ⊆ others) :
    Appends others state tasks piece :=
  appends.carries within (.refl state)

theorem nil (parts : List Expr) (state : State) : Appends parts state [] Piece.empty := by
  intro later
  have unchanged : state.add Piece.empty = state := by simp [State.add]
  rw [unchanged]
  exact ⟨[], .done _, rfl, .refl _, nofun⟩

theorem append (first : Appends parts state tasks piece)
    (second : Appends parts (state.add piece) next further) :
    Appends parts state (tasks ++ next) (piece ++ further) := by
  intro later
  have grown := second.carries (List.Subset.refl parts) ((State.Extends.refl state).add piece) later
  have both := (first (next ++ later)).trans grown
  rw [State.size_add] at both
  rw [List.append_assoc, Piece.branches_append, List.map_append, State.add_append]
  exact both

/-- A branch that waits during some tasks and is patched behind them leads around their piece. -/
theorem around {branch : Branch} (inner : Appends parts (state.await branch) tasks piece) :
    Appends parts state (.jump branch :: (tasks ++ [.patch]))
      (Piece.ofOp (.jump branch (state.code.ops.size + 1 + piece.ops.length)) ++ piece) := by
  intro later
  have kept := State.Extends.refl state
  have jumps := carries_jump parts kept branch (tasks ++ .patch :: later)
  have fills := inner.carries (List.Subset.refl parts) (kept.await branch) (.patch :: later)
  have patches := carries_patch parts kept branch piece later
  have all := (jumps.trans fills).trans patches
  rw [State.size_await, List.append_nil, List.nil_append] at all
  rw [List.cons_append, List.append_assoc, Piece.branches_append, Piece.branches_ofOp_jump]
  exact all.perm (List.perm_append_singleton _ _)

/-- Tasks that stand for a task. -/
theorem of_step {task : Task} (quiet : task.isQuiet = true)
    (steps : step state task = (state, tasks)) (appends : Appends parts state tasks piece) :
    Appends parts state [task] piece := by
  intro later
  exact (carries_quiet quiet (.refl state) steps).trans (appends later)

/-- A task that appends instructions without branches. -/
theorem of_branchless {task : Task} (quiet : task.isQuiet = true)
    (steps : step state task = (state.add piece, []))
    (branchless : ∀ start, piece.branches start = []) : Appends parts state [task] piece := by
  intro later
  rw [branchless]
  exact carries_quiet quiet (.refl state) steps

end Appends

end Lowering

end JsonShape
