import JsonShape.Program.Compilation
import JsonShape.Schema.Emission

/-!
# Compiled programs of schemas

Schemas are compiled when a program for them is first asked for, once for each instance of a
schema and each treatment of unknown keys. A `Store` holds a cell for each instance, with the
programs compiled so far, and a `Handle` is a schema with the number of its cell. A copy of a
handle shares its cell, while the same schema added again gets a cell of its own.

`Store.fetch` gives the program of a handle and what happened: it was compiled now, or it was
there.
-/

namespace JsonShape

namespace Cache

/-- A program, and its number among all programs of a store in order of compilation. -/
structure Compiled where
  number : Nat
  program : Program
  deriving Repr, DecidableEq

/-- The programs compiled for an instance of a schema. -/
structure Cell where
  /-- The program that ignores unknown keys. -/
  ignoring : Option Compiled := none
  /-- The program that rejects unknown keys. -/
  rejecting : Option Compiled := none

namespace Cell

/-- The program for a treatment of unknown keys, if it has been compiled. -/
def compiled? (cell : Cell) : UnknownKeys → Option Compiled
  | .ignore => cell.ignoring
  | .reject => cell.rejecting

def keep (cell : Cell) (mode : UnknownKeys) (compiled : Compiled) : Cell :=
  match mode with
  | .ignore => { cell with ignoring := some compiled }
  | .reject => { cell with rejecting := some compiled }

end Cell

/-- A schema and the number of the cell that keeps its programs. -/
structure Handle where
  schema : Schema
  cell : Nat
  deriving Repr

/-- The cells of all instances, and how many programs have been compiled for them. -/
structure Store where
  cells : Array Cell
  programs : Nat

/-- What happened when a program was asked for. -/
inductive Event
  /-- The program was compiled. -/
  | compiled (fields sourceBytes slots ops : Nat) (mode : UnknownKeys)
  /-- The program was there. -/
  | reused (ops : Nat)
  deriving Repr, DecidableEq

namespace Event

def level : Event → String
  | .compiled .. => "DEBUG"
  | .reused .. => "TRACE"

def message : Event → String
  | .compiled .. => "compiled schema"
  | .reused .. => "reusing compiled schema"

end Event

/-- Why a program cannot be given. -/
inductive FetchError
  /-- There is no cell of this number. -/
  | noCell (cell : Nat)
  /-- The check expression of the schema is refused. -/
  | refused (error : Check.Error)
  deriving Repr, DecidableEq

structure Fetched where
  compiled : Compiled
  event : Event
  store : Store

namespace Store

def empty : Store :=
  ⟨#[], 0⟩

/-- Adds an instance of a schema with an empty cell of its own. -/
def add (store : Store) (schema : Schema) : Handle × Store :=
  (⟨schema, store.cells.size⟩, { store with cells := store.cells.push {} })

/-- The program of a handle for a treatment of unknown keys, compiled if it has not been before. -/
def fetch (store : Store) (handle : Handle) (mode : UnknownKeys) : Except FetchError Fetched :=
  match store.cells[handle.cell]? with
  | none => .error (.noCell handle.cell)
  | some cell =>
      match cell.compiled? mode with
      | some compiled => .ok ⟨compiled, .reused compiled.program.ops.size, store⟩
      | none =>
          match Program.compile (handle.schema.emit mode) with
          | .error error => .error (.refused error)
          | .ok program =>
              let compiled : Compiled := ⟨store.programs, program⟩
              .ok {
                compiled
                event := .compiled handle.schema.members.length program.source.utf8ByteSize
                  program.slots.size program.ops.size mode
                store := {
                  cells := store.cells.setIfInBounds handle.cell (cell.keep mode compiled)
                  programs := store.programs + 1 } }

end Store

end Cache

end JsonShape
