import JsonShape.Program.Basic

/-!
# Instructions of an expression

`Expr.lower` turns an expression into instructions by a list of tasks and a stack of branches that
wait for their target, so that nesting is bounded by memory alone. A task is either a step of its
own or stands for tasks that take fewer steps together (`weight_step_lt`). Which instructions an
expression becomes, and where they stand, is said by recursion in the module on layout.
-/

namespace JsonShape

open Check

/-- The instructions produced so far and their tables. -/
structure Code where
  ops : Array Instruction
  keys : Array String
  keySets : Array (List String)
  deriving Repr, DecidableEq

namespace Code

def empty : Code :=
  ⟨#[], #[], #[]⟩

def emit (code : Code) (op : Instruction) : Code :=
  { code with ops := code.ops.push op }

/-- Adds the instruction of a test. Names and sets of names get entries of their own in the
tables. -/
def emitTest (code : Code) (slot : Nat) : Test → Code
  | .isNull => code.emit (.isNull slot)
  | .isAbsent => code.emit (.isAbsent slot)
  | .isKind kind => code.emit (.isKind kind slot)
  | .has key =>
      { code with
        ops := code.ops.push (.has slot code.keys.size)
        keys := code.keys.push key }
  | .onlyKeys keys =>
      { code with
        ops := code.ops.push (.onlyKeys slot code.keySets.size)
        keySets := code.keySets.push keys }

/-- Makes the branch at a position lead to the end of the code. -/
def land (code : Code) (position : Nat) : Code :=
  { code with ops := code.ops.modify position (Instruction.retarget code.ops.size) }

end Code

namespace Lowering

inductive Task
  /-- Produce an expression. -/
  | lower (expr : Expr)
  /-- Produce an expression, inverted or not. -/
  | lowerInverted (expr : Expr) (inverted : Bool)
  /-- Produce an instruction. -/
  | emit (op : Instruction)
  /-- Produce a branch that waits for its target. -/
  | jump (branch : Branch)
  /-- Exchange the two branches that began to wait last. -/
  | swap
  /-- Make the branch that began to wait last lead here. -/
  | patch
  deriving Repr

/-- The code so far and the positions of the branches that wait for a target, latest first. -/
structure State where
  code : Code
  waiting : List Nat
  deriving Repr, DecidableEq

/-- The tasks of the parts of a conjunction behind its first part: each begins with a branch to
the end. -/
def partTasks : List Expr → List Task
  | [] => []
  | part :: rest => .jump .ifFalse :: .lower part :: partTasks rest

/-- The tasks that an expression consists of, and the state after its own instruction, if it has
one. -/
def expand (state : State) : Expr → State × List Task
  | .constant value => ({ state with code := state.code.emit (.constant value) }, [])
  | .test slot test => ({ state with code := state.code.emitTest slot test }, [])
  | .not operand => (state, [.lowerInverted operand true])
  | .and first rest =>
      (state, .lower first :: (partTasks rest ++ List.replicate rest.length .patch))
  | .cond condition (.constant false) alternative =>
      (state, [.lowerInverted condition true, .jump .ifFalse, .lower alternative, .patch])
  | .cond condition (.constant true) alternative =>
      (state, [.lowerInverted condition false, .jump .ifTrue, .lower alternative, .patch])
  | .cond condition consequent alternative =>
      (state, [.lower condition, .jump .ifFalse, .lower consequent, .jump .always, .swap, .patch,
        .lower alternative, .patch])

/-- Carries out one task, and gives the tasks that take its place. -/
def step (state : State) : Task → State × List Task
  | .lower expr => expand state expr
  | .lowerInverted (.not operand) inverted => (state, [.lowerInverted operand !inverted])
  | .lowerInverted expr inverted =>
      (state, if inverted then [.lower expr, .emit .not] else [.lower expr])
  | .emit op => ({ state with code := state.code.emit op }, [])
  | .jump branch =>
      let position := state.code.ops.size
      (⟨state.code.emit (.jump branch 0), position :: state.waiting⟩, [])
  | .swap =>
      match state.waiting with
      | last :: before :: waiting => ({ state with waiting := before :: last :: waiting }, [])
      | _ => (state, [])
  | .patch =>
      match state.waiting with
      | position :: waiting => (⟨state.code.land position, waiting⟩, [])
      | [] => (state, [])

/-- A bound on the steps that a task takes. -/
def Task.weight : Task → Nat
  | .lower expr => 8 * expr.size
  | .lowerInverted expr _ => 8 * expr.size + 3
  | .emit _ | .jump _ | .swap | .patch => 1

/-- A bound on the steps that some tasks take. -/
def weight : List Task → Nat
  | [] => 0
  | task :: rest => task.weight + weight rest

@[simp]
theorem weight_append (first second : List Task) :
    weight (first ++ second) = weight first + weight second := by
  induction first with
  | nil => simp [weight]
  | cons task rest ih => simp [weight, ih, Nat.add_assoc]

theorem weight_replicate_patch (count : Nat) : weight (List.replicate count .patch) = count := by
  induction count with
  | zero => rfl
  | succ count ih => simp [List.replicate_succ, weight, Task.weight, ih, Nat.add_comm]

theorem weight_partTasks (parts : List Expr) :
    weight (partTasks parts) + parts.length ≤ 8 * Expr.sizeAll parts := by
  induction parts with
  | nil => simp [partTasks, weight]
  | cons part rest ih =>
      simp only [partTasks, weight, Task.weight, List.length_cons, Expr.sizeAll]
      omega

theorem weight_expand_lt (state : State) (expr : Expr) :
    weight (expand state expr).2 < 8 * expr.size := by
  unfold expand
  split <;> simp only [weight, weight_append, weight_replicate_patch, Task.weight, Expr.size]
  case h_4 first rest =>
    have parts := weight_partTasks rest
    omega
  all_goals omega

/-- A task is replaced by tasks that take fewer steps together. -/
theorem weight_step_lt (state : State) (task : Task) :
    weight (step state task).2 < task.weight := by
  unfold step
  split
  case h_1 expr => exact weight_expand_lt state expr
  case h_3 expr inverted _ =>
    split <;> simp only [weight, Task.weight] <;> omega
  case h_6 => split <;> simp [weight, Task.weight]
  case h_7 => split <;> simp [weight, Task.weight]
  all_goals
    simp only [weight, Task.weight, Expr.size]
    omega

/-- Carries out tasks until none is left. -/
def run (state : State) : List Task → State
  | [] => state
  | task :: rest =>
      match _next : step state task with
      | (next, tasks) => run next (tasks ++ rest)
termination_by tasks => weight tasks
decreasing_by
  have smaller := weight_step_lt state task
  simp only [_next] at smaller
  simp only [weight_append, weight]
  omega

end Lowering

def Check.Expr.lower (expr : Expr) : Code :=
  (Lowering.run ⟨Code.empty, []⟩ [.lower expr]).code

/-- The program of an expression that was read from a source. -/
def Program.ofExpr (source : String) (expr : Expr) (slots : Array Slot) : Program :=
  let code := expr.lower
  ⟨code.ops, slots, code.keys, code.keySets, source⟩

end JsonShape
