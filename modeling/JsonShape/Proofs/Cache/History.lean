import JsonShape.Cache.History
import JsonShape.Proofs.Schema.Emission

/-!
# Validators of any sequence of calls

Handles that share a cell have the same schema, and a cell keeps only programs of that schema, each
for its own treatment of unknown keys (`Sound`). Every call keeps this: a schema that is built gets
a cell of its own, a copy has the schema of the handle that it copies, and a program is kept under
the treatment for which it was compiled. Since the text of a schema is never refused, no call fails.

`History.Adds` says what a call adds: the handle of a schema that is built or copied
(`Call.handle?`), or validators for the handle and the treatment that are asked for
(`Call.request?`).
-/

namespace JsonShape

namespace Cache

theorem Cell.compiled?_keep (cell : Cell) (mode other : UnknownKeys) (compiled : Compiled) :
    (cell.keep mode compiled).compiled? other =
      if other = mode then some compiled else cell.compiled? other := by
  cases mode <;> cases other <;> rfl

def compiledEvent (schema : Schema) (mode : UnknownKeys) : Event :=
  .compiled schema.members.length (schema.program mode).source.utf8ByteSize
    (schema.program mode).slots.size (schema.program mode).ops.size mode

/-- What asking for a program does: a program that is there is given, and else it is compiled and
kept. -/
theorem Store.fetch_cases {store : Store} {handle : Handle} {cell : Cell}
    (found : store.cells[handle.cell]? = some cell) (mode : UnknownKeys) :
    (∃ compiled, cell.compiled? mode = some compiled ∧
        store.fetch handle mode = .ok ⟨compiled, .reused compiled.program.ops.size, store⟩) ∨
      (cell.compiled? mode = none ∧
        let compiled : Compiled := ⟨store.programs, handle.schema.program mode⟩
        store.fetch handle mode = .ok ⟨compiled, compiledEvent handle.schema mode,
          ⟨store.cells.setIfInBounds handle.cell (cell.keep mode compiled),
            store.programs + 1⟩⟩) := by
  cases there : cell.compiled? mode with
  | some compiled =>
      left
      refine ⟨compiled, rfl, ?_⟩
      simp only [fetch, found, there]
  | none =>
      right
      refine ⟨rfl, ?_⟩
      simp only [fetch, found, there, handle.schema.compile_emit mode]
      rfl

/-- Running the program of a schema accepts what walking the schema accepts. -/
theorem Validator.running_eq_walking {compiled : Compiled} {schema : Schema} {mode : UnknownKeys}
    (program : compiled.program = schema.program mode) (value : Option Json) :
    (running compiled).accepts value = (walking schema mode).accepts value := by
  change compiled.program.evaluate value = schema.accepts mode value
  rw [program, Schema.evaluate_program]

/-- The handle that a call adds to some handles, if a new instance gets the given cell. -/
def Call.handle? (handles : List Handle) (cell : Nat) : Call → Option Handle
  | .new pairs => some ⟨Schema.ofPairs pairs, cell⟩
  | .ofNode node => some ⟨node, cell⟩
  | .ofDescription description => description.toSchema.toOption.map fun schema => ⟨schema, cell⟩
  | .clone position => handles[position]?
  | .nullable position =>
      handles[position]?.map fun original => ⟨original.schema.nullable, cell⟩
  | .optional position =>
      handles[position]?.map fun original => ⟨original.schema.optional, cell⟩
  | .compile _ _ => none

/-- The handle and the treatment of unknown keys for which a call asks for validators. -/
def Call.request? (handles : List Handle) : Call → Option (Handle × UnknownKeys)
  | .compile position mode => handles[position]?.map fun handle => (handle, mode)
  | .new _ | .ofNode _ | .ofDescription _ | .clone _ | .nullable _ | .optional _ => none

/-- What the validators were asked for. -/
def Issued.request (issued : Issued) : Handle × UnknownKeys :=
  (issued.handle, issued.mode)

namespace History

/-- What a call adds to a history. -/
structure Adds (history : History) (call : Call) (next : History) : Prop where
  /-- The schema that is built or copied, and nothing else. A new instance has a cell that is the
  cell of no other handle. -/
  handles : ∃ cell, (∀ handle ∈ history.handles, handle.cell ≠ cell) ∧
    next.handles = history.handles ++ (call.handle? history.handles cell).toList
  /-- The validators that are asked for, and no others. -/
  issued : ∃ given, next.issued = history.issued ++ given ∧
    given.map Issued.request = (call.request? history.handles).toList

namespace Adds

variable {history next : History} {call : Call}

theorem handles_prefix (adds : history.Adds call next) : history.handles <+: next.handles := by
  rcases adds.handles with ⟨cell, -, grown⟩
  exact ⟨_, grown.symm⟩

theorem issued_prefix (adds : history.Adds call next) : history.issued <+: next.issued := by
  rcases adds.issued with ⟨given, grown, -⟩
  exact ⟨given, grown.symm⟩

end Adds

/-- Cells hold what their handles ask for, and handles of one cell ask for the same. -/
structure Sound (history : History) : Prop where
  inside : ∀ handle ∈ history.handles, handle.cell < history.store.cells.size
  shared : ∀ first ∈ history.handles, ∀ second ∈ history.handles, first.cell = second.cell →
    first.schema = second.schema
  kept : ∀ handle ∈ history.handles, ∀ (cell : Cell) (mode : UnknownKeys) (compiled : Compiled),
    history.store.cells[handle.cell]? = some cell → cell.compiled? mode = some compiled →
      compiled.program = handle.schema.program mode
  issued : ∀ issued ∈ history.issued,
    issued.compiled.program = issued.handle.schema.program issued.mode

namespace Sound

variable {history next : History}

theorem empty : Sound .empty :=
  ⟨by simp [History.empty], by simp [History.empty], by simp [History.empty],
    by simp [History.empty]⟩

theorem build (sound : Sound history) (schema : Schema) : Sound (history.build schema) := by
  refine ⟨?_, ?_, ?_, sound.issued⟩
  · intro handle member
    simp only [History.build, Store.add, Array.size_push, List.mem_append,
      List.mem_singleton] at member ⊢
    rcases member with older | rfl
    · have inside := sound.inside handle older
      omega
    · exact Nat.lt_succ_self _
  · intro first firstMember second secondMember sameCell
    simp only [History.build, Store.add, List.mem_append,
      List.mem_singleton] at firstMember secondMember
    rcases firstMember with firstOlder | rfl
    · rcases secondMember with secondOlder | rfl
      · exact sound.shared first firstOlder second secondOlder sameCell
      · have inside := sound.inside first firstOlder
        simp only at sameCell
        omega
    · rcases secondMember with secondOlder | rfl
      · have inside := sound.inside second secondOlder
        simp only at sameCell
        omega
      · rfl
  · intro handle member cell mode compiled found there
    simp only [History.build, Store.add, List.mem_append, List.mem_singleton] at member found
    rw [Array.getElem?_push] at found
    split at found
    · cases found
      cases mode <;> cases there
    · rename_i other
      rcases member with older | rfl
      · exact sound.kept handle older cell mode compiled found there
      · exact absurd rfl other

theorem clone (sound : Sound history) {handle : Handle} (original : handle ∈ history.handles) :
    Sound { history with handles := history.handles ++ [handle] } := by
  have before : ∀ other ∈ history.handles ++ [handle], other ∈ history.handles := by
    intro other member
    rcases List.mem_append.mp member with older | last
    · exact older
    · rw [List.mem_singleton.mp last]
      exact original
  refine ⟨?_, ?_, ?_, sound.issued⟩
  · intro other member
    exact sound.inside other (before other member)
  · intro first firstMember second secondMember sameCell
    exact sound.shared first (before first firstMember) second (before second secondMember) sameCell
  · intro other member
    exact sound.kept other (before other member)

/-- A program that is given is that of the handle, and keeping it changes nothing else. -/
theorem fetch (sound : Sound history) {handle : Handle} (member : handle ∈ history.handles)
    (mode : UnknownKeys) :
    ∃ fetched, history.store.fetch handle mode = .ok fetched ∧
      fetched.compiled.program = handle.schema.program mode ∧
      Sound { history with store := fetched.store } := by
  have inside := sound.inside handle member
  have found := Array.getElem?_eq_getElem inside
  generalize history.store.cells[handle.cell] = cell at found
  rcases Store.fetch_cases found mode with ⟨compiled, there, fetched⟩ | ⟨-, fetched⟩
  · exact ⟨_, fetched, sound.kept handle member cell mode compiled found there, sound⟩
  · refine ⟨_, fetched, rfl, ?_, sound.shared, ?_, sound.issued⟩
    · intro other otherMember
      rw [Array.size_setIfInBounds]
      exact sound.inside other otherMember
    · intro other otherMember otherCell otherMode compiled otherFound there
      rw [Array.getElem?_setIfInBounds] at otherFound
      split at otherFound
      · rename_i sameCell
        cases otherFound
        rw [Cell.compiled?_keep] at there
        split at there
        · rename_i sameMode
          cases there
          rw [sameMode, sound.shared handle member other otherMember sameCell]
        · rw [sameCell] at found
          exact sound.kept other otherMember cell otherMode compiled found there
      · exact sound.kept other otherMember otherCell otherMode compiled otherFound there

/-- The next cell of a sound history is the cell of no handle. -/
theorem adds (sound : Sound history) {call : Call} {given : List Issued}
    (handles : next.handles =
      history.handles ++ (call.handle? history.handles history.store.cells.size).toList)
    (issued : next.issued = history.issued ++ given)
    (requests : given.map Issued.request = (call.request? history.handles).toList) :
    history.Adds call next :=
  ⟨⟨_, fun handle member => Nat.ne_of_lt (sound.inside handle member), handles⟩,
    given, issued, requests⟩

theorem adds_build (sound : Sound history) {call : Call} {schema : Schema}
    (builds : call.handle? history.handles history.store.cells.size =
      some ⟨schema, history.store.cells.size⟩)
    (asksNothing : call.request? history.handles = none) :
    history.Adds call (history.build schema) := by
  refine sound.adds ?_ (List.append_nil _).symm ?_
  · rw [builds]
    rfl
  · rw [asksNothing]
    rfl

theorem adds_nothing (sound : Sound history) {call : Call}
    (buildsNothing : call.handle? history.handles history.store.cells.size = none)
    (asksNothing : call.request? history.handles = none) : history.Adds call history := by
  refine sound.adds ?_ (List.append_nil _).symm ?_
  · rw [buildsNothing]
    exact (List.append_nil _).symm
  · rw [asksNothing]
    rfl

/-- A call does not fail and keeps the history sound. -/
theorem step (sound : Sound history) (call : Call) :
    ∃ next, history.step call = .ok next ∧ Sound next ∧ history.Adds call next := by
  cases call with
  | new pairs => exact ⟨_, rfl, sound.build _, sound.adds_build rfl rfl⟩
  | ofNode node => exact ⟨_, rfl, sound.build _, sound.adds_build rfl rfl⟩
  | ofDescription description =>
      rw [History.step]
      split
      · rename_i schema said
        exact ⟨_, rfl, sound.build _, sound.adds_build (by rw [Call.handle?, said]; rfl) rfl⟩
      · rename_i error refused
        exact ⟨_, rfl, sound, sound.adds_nothing (by rw [Call.handle?, refused]; rfl) rfl⟩
  | clone position =>
      rw [History.step]
      split
      · rename_i handle found
        refine ⟨_, rfl, sound.clone (List.mem_of_getElem? found), ?_⟩
        exact sound.adds (by rw [Call.handle?, found]; rfl) (List.append_nil _).symm rfl
      · rename_i missing
        exact ⟨_, rfl, sound, sound.adds_nothing missing rfl⟩
  | nullable position | optional position =>
      rw [History.step]
      split
      · rename_i handle found
        exact ⟨_, rfl, sound.build _, sound.adds_build (by rw [Call.handle?, found]; rfl) rfl⟩
      · rename_i missing
        exact ⟨_, rfl, sound, sound.adds_nothing (by rw [Call.handle?, missing]; rfl) rfl⟩
  | compile position mode =>
      rw [History.step]
      split
      · rename_i handle found
        rcases sound.fetch (List.mem_of_getElem? found) mode with ⟨fetched, given, program, kept⟩
        rw [given]
        refine ⟨_, rfl, ⟨kept.inside, kept.shared, kept.kept, ?_⟩, ?_⟩
        · intro issued member
          rcases List.mem_append.mp member with older | last
          · exact kept.issued issued older
          · rw [List.mem_singleton.mp last]
            exact program
        · exact sound.adds (List.append_nil _).symm rfl (by rw [Call.request?, found]; rfl)
      · rename_i missing
        exact ⟨_, rfl, sound, sound.adds_nothing rfl (by rw [Call.request?, missing]; rfl)⟩

theorem run (sound : Sound history) (calls : List Call) :
    ∃ last, history.run calls = .ok last ∧ Sound last ∧
      history.handles <+: last.handles ∧ history.issued <+: last.issued := by
  induction calls generalizing history with
  | nil => exact ⟨history, rfl, sound, List.prefix_rfl, List.prefix_rfl⟩
  | cons call rest ih =>
      rcases sound.step call with ⟨next, stepped, nextSound, adds⟩
      rcases ih nextSound with ⟨last, ran, lastSound, lastHandles, lastIssued⟩
      refine ⟨last, ?_, lastSound, adds.handles_prefix.trans lastHandles,
        adds.issued_prefix.trans lastIssued⟩
      rw [History.run, stepped]
      exact ran

end Sound

theorem run_append {history middle : History} {calls : List Call}
    (ran : history.run calls = .ok middle) (more : List Call) :
    history.run (calls ++ more) = middle.run more := by
  induction calls generalizing history with
  | nil =>
      cases ran
      rfl
  | cons call rest ih =>
      rw [run] at ran
      rw [List.cons_append, run]
      cases stepped : history.step call with
      | error error =>
          rw [stepped] at ran
          cases ran
      | ok next =>
          rw [stepped] at ran
          exact ih ran

theorem run_concat {history middle next : History} {calls : List Call} {call : Call}
    (ran : history.run calls = .ok middle) (stepped : middle.step call = .ok next) :
    history.run (calls ++ [call]) = .ok next := by
  rw [run_append ran, run, stepped]
  rfl

/-- After any calls, all validators that were given out accept what walking their schema accepts,
and every handle can be asked for such validators. One more call adds the schema that it builds or
copies, or validators for the handle and the treatment of unknown keys that it asks for. Further
calls leave the handles and the given validators as they are, and handles that share a cell have the
same schema. -/
theorem run_issued_agree (calls : List Call) :
    ∃ history, empty.run calls = .ok history ∧
      (∀ issued ∈ history.issued,
        Program.compile (issued.handle.schema.emit issued.mode) = .ok issued.compiled.program ∧
        ∀ value : Option Json, issued.validator.accepts value =
          (Validator.walking issued.handle.schema issued.mode).accepts value) ∧
      (∀ handle ∈ history.handles, ∀ mode : UnknownKeys, ∃ fetched,
        history.store.fetch handle mode = .ok fetched ∧
          Program.compile (handle.schema.emit mode) = .ok fetched.compiled.program ∧
          ∀ value : Option Json, (Validator.running fetched.compiled).accepts value =
            (Validator.walking handle.schema mode).accepts value) ∧
      (∀ first ∈ history.handles, ∀ second ∈ history.handles, first.cell = second.cell →
        first.schema = second.schema) ∧
      (∀ call : Call, ∃ next, empty.run (calls ++ [call]) = .ok next ∧ history.Adds call next) ∧
      ∀ more : List Call, ∃ later, empty.run (calls ++ more) = .ok later ∧
        history.handles <+: later.handles ∧ history.issued <+: later.issued := by
  rcases Sound.empty.run calls with ⟨history, ran, sound, -⟩
  refine ⟨history, ran, ?_, ?_, sound.shared, ?_, ?_⟩
  · intro issued member
    have program := sound.issued issued member
    exact ⟨by rw [program, Schema.compile_emit], Validator.running_eq_walking program⟩
  · intro handle member mode
    rcases sound.fetch member mode with ⟨fetched, given, program, -⟩
    exact ⟨fetched, given, by rw [program, Schema.compile_emit],
      Validator.running_eq_walking program⟩
  · intro call
    rcases sound.step call with ⟨next, stepped, -, adds⟩
    exact ⟨next, run_concat ran stepped, adds⟩
  · intro more
    rcases sound.run more with ⟨later, ranLater, -, handles, issued⟩
    refine ⟨later, ?_, handles, issued⟩
    rw [run_append ran, ranLater]

/-- A schema without fields in both treatments, the second asked of a copy, and the schema that
accepts `null` too: all of the validators accept the object without members, and no two of them
agree on the object with an unknown key and on `null`. -/
theorem run_issued_agree_copy_and_toggle :
    let calls : List Call := [.new [], .compile 0 .ignore, .clone 0, .compile 1 .reject,
      .nullable 1, .compile 2 .ignore]
    let values : List (Option Json) :=
      [some (.object []), some (.object [("foo", .null)]), some .null]
    ∃ history, empty.run calls = .ok history ∧
      history.handles.map Handle.cell = [0, 0, 1] ∧
      history.issued.map (fun issued =>
        (issued.handle.cell, issued.mode, values.map issued.validator.accepts)) =
          [(0, .ignore, [true, true, false]), (0, .reject, [true, false, false]),
            (1, .ignore, [true, true, true])] ∧
      ∀ issued ∈ history.issued, ∀ value : Option Json, issued.validator.accepts value =
        (Validator.walking issued.handle.schema issued.mode).accepts value := by
  intro calls values
  have shown : (empty.run calls).map (fun history => (history.handles.map Handle.cell,
      history.issued.map fun issued =>
        (issued.handle.cell, issued.mode, values.map issued.validator.accepts))) =
      .ok ([0, 0, 1], [(0, .ignore, [true, true, false]), (0, .reject, [true, false, false]),
        (1, .ignore, [true, true, true])]) := by
    decide +kernel
  rcases run_issued_agree calls with ⟨history, ran, agree, -⟩
  rw [ran, Except.map, Except.ok.injEq, Prod.mk.injEq] at shown
  exact ⟨history, ran, shown.1, shown.2, fun issued member => (agree issued member).2⟩

end History

end Cache

end JsonShape
