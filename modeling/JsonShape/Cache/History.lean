import JsonShape.Cache.Validator
import JsonShape.Description.Basic

/-!
# Sequences of calls

A `History` is what a sequence of calls leaves behind: the handles of all schemas that were built,
the store of their programs, and the validators that were given out, in order. A call names an
earlier handle by its position. Calls that name no handle cannot be made, and a description that is
no schema builds none; both leave the history as it is.

`History.run` fails only if a program cannot be given.
-/

namespace JsonShape

namespace Cache

/-- A call that builds a schema or asks for validators. -/
inductive Call
  /-- A schema of declared fields, without flags. -/
  | new (pairs : List (String × Field))
  /-- A schema of an object node. -/
  | ofNode (node : Schema)
  /-- A schema of a description. -/
  | ofDescription (description : Description)
  /-- A copy, which shares the cell. -/
  | clone (position : Nat)
  /-- The schema that accepts `null` too. -/
  | nullable (position : Nat)
  /-- The schema that accepts an absent value too. -/
  | optional (position : Nat)
  /-- Validators that run a program. -/
  | compile (position : Nat) (mode : UnknownKeys)

/-- Validators that were given out: for which handle and treatment of unknown keys, the program that
they run, and what happened when it was asked for. -/
structure Issued where
  handle : Handle
  mode : UnknownKeys
  compiled : Compiled
  event : Event

def Issued.validator (issued : Issued) : Validator :=
  .running issued.compiled

/-- What a sequence of calls leaves behind. -/
structure History where
  handles : List Handle
  store : Store
  issued : List Issued

namespace History

def empty : History :=
  ⟨[], .empty, []⟩

/-- A new instance of a schema. -/
def build (history : History) (schema : Schema) : History :=
  let (handle, store) := history.store.add schema
  { history with handles := history.handles ++ [handle], store }

def step (history : History) : Call → Except FetchError History
  | .new pairs => .ok (history.build (Schema.ofPairs pairs))
  | .ofNode node => .ok (history.build node)
  | .ofDescription description =>
      match description.toSchema with
      | .ok schema => .ok (history.build schema)
      | .error _ => .ok history
  | .clone position =>
      match history.handles[position]? with
      | some handle => .ok { history with handles := history.handles ++ [handle] }
      | none => .ok history
  | .nullable position =>
      match history.handles[position]? with
      | some handle => .ok (history.build handle.schema.nullable)
      | none => .ok history
  | .optional position =>
      match history.handles[position]? with
      | some handle => .ok (history.build handle.schema.optional)
      | none => .ok history
  | .compile position mode =>
      match history.handles[position]? with
      | some handle =>
          match history.store.fetch handle mode with
          | .error error => .error error
          | .ok fetched =>
              let issued : Issued := ⟨handle, mode, fetched.compiled, fetched.event⟩
              .ok { history with store := fetched.store, issued := history.issued ++ [issued] }
      | none => .ok history

def run (history : History) : List Call → Except FetchError History
  | [] => .ok history
  | call :: rest =>
      match history.step call with
      | .error error => .error error
      | .ok next => run next rest

end History

end Cache

end JsonShape
