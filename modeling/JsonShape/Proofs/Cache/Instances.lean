import Mathlib.Data.List.Induction
import Mathlib.Logic.Relation
import JsonShape.Proofs.Cache.History

/-!
# One program for each instance of a schema

An instance of a schema is what copying keeps: two handles are of one instance if copies lead from
one to the other (`History.SameInstance`), and nothing else makes them so, neither that their
schemas are equal nor that one was built from the other. Each instance is compiled at most once for
each treatment of unknown keys, by the first call that asks for it, and all calls that ask for it
are given the one program.

The proof goes through the cells. `History.Numbered` relates the cells to the programs that were
given out and to their numbers. `History.Traced` relates the handles and what was given out to the
calls. Both are kept by each of the things that a call can do (`History.Does`).
-/

namespace JsonShape

namespace Cache

namespace Store

/-- The program that a cell keeps for a treatment of unknown keys. -/
def compiled? (store : Store) (cell : Nat) (mode : UnknownKeys) : Option Compiled :=
  store.cells[cell]?.bind fun kept => kept.compiled? mode

theorem compiled?_add (store : Store) (schema : Schema) (cell : Nat) (mode : UnknownKeys) :
    (store.add schema).2.compiled? cell mode = store.compiled? cell mode := by
  simp only [add, compiled?, Array.getElem?_push]
  split
  · rename_i last
    rw [last, Array.getElem?_eq_none (Nat.le_refl _)]
    cases mode <;> rfl
  · rfl

/-- A program is compiled for a cell, which changes nothing else that is kept. -/
structure Compiles (store : Store) (cell : Nat) (mode : UnknownKeys) (program : Program)
    (next : Store) : Prop where
  missing : store.compiled? cell mode = none
  counted : next.programs = store.programs + 1
  changed : ∀ other otherMode, next.compiled? other otherMode =
    if other = cell ∧ otherMode = mode then some ⟨store.programs, program⟩
    else store.compiled? other otherMode

namespace Compiles

variable {store next : Store} {cell other : Nat} {mode otherMode : UnknownKeys}
  {program : Program} {compiled : Compiled}

theorem gives (compiles : Compiles store cell mode program next) :
    next.compiled? cell mode = some ⟨store.programs, program⟩ := by
  rw [compiles.changed, if_pos ⟨rfl, rfl⟩]

theorem keeps (compiles : Compiles store cell mode program next)
    (there : store.compiled? other otherMode = some compiled) :
    next.compiled? other otherMode = some compiled := by
  rw [compiles.changed, if_neg]
  · exact there
  · rintro ⟨rfl, rfl⟩
    rw [compiles.missing] at there
    cases there

theorem new_or_kept (compiles : Compiles store cell mode program next)
    (there : next.compiled? other otherMode = some compiled) :
    (other = cell ∧ otherMode = mode ∧ compiled.number = store.programs) ∨
      store.compiled? other otherMode = some compiled := by
  rw [compiles.changed] at there
  split at there
  · rename_i here
    cases there
    exact .inl ⟨here.1, here.2, rfl⟩
  · exact .inr there

end Compiles

/-- Asking for a program gives the one that is kept, or compiles one. -/
theorem fetch_kept_or_compiled {store : Store} {handle : Handle}
    (inside : handle.cell < store.cells.size) (mode : UnknownKeys) :
    (∃ compiled, store.compiled? handle.cell mode = some compiled ∧
        store.fetch handle mode = .ok ⟨compiled, .reused compiled.program.ops.size, store⟩) ∨
      ∃ next, store.Compiles handle.cell mode (handle.schema.program mode) next ∧
        store.fetch handle mode = .ok ⟨⟨store.programs, handle.schema.program mode⟩,
          compiledEvent handle.schema mode, next⟩ := by
  have found := Array.getElem?_eq_getElem inside
  generalize store.cells[handle.cell] = kept at found
  have here : ∀ other, store.compiled? handle.cell other = kept.compiled? other := by
    intro other
    rw [compiled?, found]
    rfl
  rcases fetch_cases found mode with ⟨compiled, there, fetched⟩ | ⟨missing, fetched⟩
  · exact .inl ⟨compiled, (here mode).trans there, fetched⟩
  · refine .inr ⟨_, ⟨(here mode).trans missing, rfl, ?_⟩, fetched⟩
    intro cell other
    by_cases same : cell = handle.cell
    · subst same
      rw [here, compiled?]
      simp only [Array.getElem?_setIfInBounds_self_of_lt inside, Option.bind_some,
        Cell.compiled?_keep, true_and]
    · rw [compiled?, Array.getElem?_setIfInBounds_ne (Ne.symm same),
        if_neg fun both => same both.1]
      rfl

end Store

namespace History

variable {history next last : History} {calls : List Call} {call : Call}

/-! ### What a call does -/

/-- What a call does to a history: nothing, or it builds a schema, copies a handle, or gives out a
program, which is there or is compiled. -/
inductive Does (history : History) : Call → History → Prop
  | nothing {call : Call} : Does history call history
  | build {call : Call} (schema : Schema) : Does history call (history.build schema)
  | copy {position : Nat} {handle : Handle} (found : history.handles[position]? = some handle) :
      Does history (.clone position) { history with handles := history.handles ++ [handle] }
  | reuse {position : Nat} {mode : UnknownKeys} {handle : Handle} {compiled : Compiled}
      (found : history.handles[position]? = some handle)
      (there : history.store.compiled? handle.cell mode = some compiled) :
      Does history (.compile position mode)
        { history with
          issued := history.issued ++
            [⟨handle, mode, compiled, .reused compiled.program.ops.size⟩] }
  | compile {position : Nat} {mode : UnknownKeys} {handle : Handle} {store : Store}
      (found : history.handles[position]? = some handle)
      (compiles : history.store.Compiles handle.cell mode (handle.schema.program mode) store) :
      Does history (.compile position mode)
        { history with
          store
          issued := history.issued ++
            [⟨handle, mode, ⟨history.store.programs, handle.schema.program mode⟩,
              compiledEvent handle.schema mode⟩] }

theorem does_of_step (sound : Sound history) (stepped : history.step call = .ok next) :
    Does history call next := by
  cases call with
  | new pairs | ofNode node =>
      cases stepped
      exact .build _
  | ofDescription description =>
      rw [step] at stepped
      split at stepped
      · cases stepped
        exact .build _
      · cases stepped
        exact .nothing
  | clone position =>
      rw [step] at stepped
      split at stepped
      · rename_i handle found
        cases stepped
        exact .copy found
      · cases stepped
        exact .nothing
  | nullable position | optional position =>
      rw [step] at stepped
      split at stepped
      · cases stepped
        exact .build _
      · cases stepped
        exact .nothing
  | compile position mode =>
      rw [step] at stepped
      split at stepped
      · rename_i handle found
        have inside := sound.inside handle (List.mem_of_getElem? found)
        rcases Store.fetch_kept_or_compiled inside mode with
          ⟨compiled, there, fetch⟩ | ⟨store, compiles, fetch⟩
        · simp only [fetch] at stepped
          cases stepped
          exact .reuse found there
        · simp only [fetch] at stepped
          cases stepped
          exact .compile found compiles
      · cases stepped
        exact .nothing

theorem step_compile {position : Nat} {handle : Handle} {mode : UnknownKeys} {fetched : Fetched}
    (found : history.handles[position]? = some handle)
    (given : history.store.fetch handle mode = .ok fetched) :
    history.step (.compile position mode) = .ok { history with
      store := fetched.store
      issued := history.issued ++ [⟨handle, mode, fetched.compiled, fetched.event⟩] } := by
  rw [step, found]
  simp only [given]

/-- The later history has all that the earlier one has, at the same places. -/
structure Extends (history next : History) : Prop where
  handles : history.handles <+: next.handles
  issued : history.issued <+: next.issued
  kept : ∀ cell mode compiled, history.store.compiled? cell mode = some compiled →
    next.store.compiled? cell mode = some compiled

namespace Extends

theorem refl (history : History) : Extends history history :=
  ⟨List.prefix_rfl, List.prefix_rfl, fun _ _ _ there => there⟩

theorem trans (first : Extends history next) (second : Extends next last) :
    Extends history last := by
  refine ⟨first.handles.trans second.handles, first.issued.trans second.issued, ?_⟩
  intro cell mode compiled there
  exact second.kept cell mode compiled (first.kept cell mode compiled there)

theorem of_step (sound : Sound history) (stepped : history.step call = .ok next) :
    Extends history next := by
  rcases sound.step call with ⟨same, steppedSame, -, adds⟩
  rw [stepped] at steppedSame
  cases steppedSame
  refine ⟨adds.handles_prefix, adds.issued_prefix, ?_⟩
  intro cell mode compiled there
  cases does_of_step sound stepped with
  | nothing => exact there
  | build schema => exact (Store.compiled?_add history.store schema cell mode).trans there
  | copy => exact there
  | reuse => exact there
  | compile found compiles => exact compiles.keeps there

theorem of_run (sound : Sound history) (ran : history.run calls = .ok next) :
    Extends history next := by
  induction calls generalizing history with
  | nil =>
      cases ran
      exact refl _
  | cons call rest ih =>
      rcases sound.step call with ⟨middle, stepped, middleSound, -⟩
      rw [run, stepped] at ran
      exact (of_step sound stepped).trans (ih middleSound ran)

theorem found (later : Extends history next) {position : Nat} {handle : Handle}
    (found : history.handles[position]? = some handle) :
    next.handles[position]? = some handle := by
  rcases later.handles with ⟨added, split⟩
  rw [← split, List.getElem?_append_left (List.getElem?_eq_some_iff.mp found).1]
  exact found

end Extends

/-! ### Programs and their numbers -/

/-- Cells keep what was given out for them, and no two programs have the same number. -/
structure Numbered (history : History) : Prop where
  below : ∀ cell mode compiled, history.store.compiled? cell mode = some compiled →
    compiled.number < history.store.programs
  unique : ∀ cell mode compiled other otherMode otherCompiled,
    history.store.compiled? cell mode = some compiled →
      history.store.compiled? other otherMode = some otherCompiled →
        compiled.number = otherCompiled.number → cell = other ∧ mode = otherMode
  given : ∀ issued ∈ history.issued,
    history.store.compiled? issued.handle.cell issued.mode = some issued.compiled
  kept : ∀ cell mode compiled, history.store.compiled? cell mode = some compiled →
    ∃ issued ∈ history.issued, issued.handle.cell = cell ∧ issued.mode = mode

namespace Numbered

theorem empty : Numbered .empty := by
  have nothing : ∀ cell mode, History.empty.store.compiled? cell mode = none :=
    fun cell mode => rfl
  exact ⟨by simp [nothing], by simp [nothing], by simp [History.empty], by simp [nothing]⟩

theorem build (numbered : Numbered history) (schema : Schema) :
    Numbered (history.build schema) := by
  have same : ∀ cell mode, (history.build schema).store.compiled? cell mode =
      history.store.compiled? cell mode := Store.compiled?_add history.store schema
  refine ⟨?_, ?_, ?_, ?_⟩
  · simp only [same]
    exact numbered.below
  · simp only [same]
    exact numbered.unique
  · simp only [same]
    exact numbered.given
  · simp only [same]
    exact numbered.kept

theorem reuse (numbered : Numbered history) {issued : Issued}
    (there : history.store.compiled? issued.handle.cell issued.mode = some issued.compiled) :
    Numbered { history with issued := history.issued ++ [issued] } := by
  refine ⟨numbered.below, numbered.unique, ?_, ?_⟩
  · intro other isIssued
    rcases List.mem_append.mp isIssued with before | now
    · exact numbered.given other before
    · rw [List.mem_singleton.mp now]
      exact there
  · intro cell mode compiled there
    rcases numbered.kept cell mode compiled there with ⟨other, isIssued, forCell⟩
    exact ⟨other, List.mem_append_left _ isIssued, forCell⟩

/-- A program that is compiled now has a number of its own. -/
theorem compile (numbered : Numbered history) {store : Store} {program : Program}
    {issued : Issued}
    (compiles : history.store.Compiles issued.handle.cell issued.mode program store)
    (isNew : issued.compiled = ⟨history.store.programs, program⟩) :
    Numbered { history with store, issued := history.issued ++ [issued] } := by
  refine ⟨?_, ?_, ?_, ?_⟩
  · intro cell mode compiled there
    simp only [compiles.counted]
    rcases compiles.new_or_kept there with ⟨-, -, number⟩ | before
    · omega
    · have below := numbered.below cell mode compiled before
      omega
  · intro cell mode compiled other otherMode otherCompiled there otherThere same
    rcases compiles.new_or_kept there with ⟨rfl, rfl, number⟩ | before
    · rcases compiles.new_or_kept otherThere with ⟨rfl, rfl, -⟩ | otherBefore
      · exact ⟨rfl, rfl⟩
      · have below := numbered.below other otherMode otherCompiled otherBefore
        omega
    · rcases compiles.new_or_kept otherThere with ⟨-, -, otherNumber⟩ | otherBefore
      · have below := numbered.below cell mode compiled before
        omega
      · exact numbered.unique cell mode compiled other otherMode otherCompiled before otherBefore
          same
  · intro other isIssued
    rcases List.mem_append.mp isIssued with before | now
    · exact compiles.keeps (numbered.given other before)
    · rw [List.mem_singleton.mp now, isNew]
      exact compiles.gives
  · intro cell mode compiled there
    rcases compiles.new_or_kept there with ⟨rfl, rfl, -⟩ | before
    · exact ⟨issued, List.mem_append_right _ (List.mem_singleton.mpr rfl), rfl, rfl⟩
    · rcases numbered.kept cell mode compiled before with ⟨other, isIssued, forCell⟩
      exact ⟨other, List.mem_append_left _ isIssued, forCell⟩

theorem step (numbered : Numbered history) (sound : Sound history)
    (stepped : history.step call = .ok next) : Numbered next := by
  cases does_of_step sound stepped with
  | nothing => exact numbered
  | build schema => exact numbered.build schema
  | copy => exact ⟨numbered.below, numbered.unique, numbered.given, numbered.kept⟩
  | reuse found there => exact numbered.reuse there
  | compile found compiles => exact numbered.compile compiles rfl

end Numbered

/-! ### Calls, copies and instances -/

/-- Among the calls, a call is made in a history. -/
def Made (calls : List Call) (call : Call) (history : History) : Prop :=
  ∃ before after, calls = before ++ call :: after ∧ empty.run before = .ok history

/-- Among the calls, one copies the handle at `original`, and the copy is the handle at `copy`. -/
def Copied (calls : List Call) (original copy : Nat) : Prop :=
  ∃ history, Made calls (.clone original) history ∧ original < history.handles.length ∧
    copy = history.handles.length

/-- Copies lead from one handle to the other. -/
def SameInstance (calls : List Call) : Nat → Nat → Prop :=
  Relation.EqvGen (Copied calls)

/-- Among the calls, one asks for a program of the handle at `position`, and this is given out. -/
def Gave (calls : List Call) (position : Nat) (mode : UnknownKeys) (issued : Issued) : Prop :=
  ∃ history next, Made calls (.compile position mode) history ∧
    history.step (.compile position mode) = .ok next ∧ next.issued = history.issued ++ [issued]

section Calls

variable {position original copied first second : Nat} {mode : UnknownKeys} {issued : Issued}

theorem Made.append (made : Made calls call history) (more : List Call) :
    Made (calls ++ more) call history := by
  rcases made with ⟨before, after, rfl, ran⟩
  exact ⟨before, after ++ more, by simp, ran⟩

theorem Made.of_run (ran : empty.run calls = .ok history) (call : Call) :
    Made (calls ++ [call]) call history :=
  ⟨calls, [], rfl, ran⟩

theorem Gave.append (gave : Gave calls position mode issued) (more : List Call) :
    Gave (calls ++ more) position mode issued := by
  rcases gave with ⟨history, next, made, stepped, given⟩
  exact ⟨history, next, made.append more, stepped, given⟩

theorem SameInstance.append (same : SameInstance calls first second) (more : List Call) :
    SameInstance (calls ++ more) first second := by
  refine Relation.EqvGen.mono ?_ _ _ same
  rintro original copy ⟨history, made, inside, isLast⟩
  exact ⟨history, made.append more, inside, isLast⟩

/-- What a call has led to is still there after all calls. -/
theorem Made.extends (made : Made calls call history) (ran : empty.run calls = .ok last) :
    Sound history ∧ ∃ next, history.step call = .ok next ∧ Extends history next ∧
      Extends next last := by
  rcases made with ⟨before, after, rfl, ranBefore⟩
  rcases Sound.empty.run before with ⟨same, ranSame, sound, -⟩
  rw [ranBefore] at ranSame
  cases ranSame
  rcases sound.step call with ⟨next, stepped, nextSound, -⟩
  rw [run_append ranBefore, run, stepped] at ran
  exact ⟨sound, next, stepped, .of_step sound stepped, .of_run nextSound ran⟩

theorem Copied.found (isCopied : Copied calls original copied)
    (ran : empty.run calls = .ok last) :
    ∃ handle, last.handles[original]? = some handle ∧ last.handles[copied]? = some handle := by
  rcases isCopied with ⟨history, made, inside, rfl⟩
  rcases made.extends ran with ⟨-, next, stepped, earlier, later⟩
  have found := List.getElem?_eq_getElem inside
  generalize history.handles[original] = handle at found
  simp only [step, found, Except.ok.injEq] at stepped
  refine ⟨handle, later.found (earlier.found found), later.found ?_⟩
  rw [← stepped]
  exact List.getElem?_concat_length

theorem SameInstance.cell_eq (same : SameInstance calls first second)
    (ran : empty.run calls = .ok last) :
    last.handles[first]?.map Handle.cell = last.handles[second]?.map Handle.cell := by
  induction same with
  | rel original copied isCopied =>
      rcases isCopied.found ran with ⟨handle, found, foundCopy⟩
      rw [found, foundCopy]
  | refl => rfl
  | symm _ _ _ ih => exact ih.symm
  | trans _ _ _ _ _ ihFirst ihSecond => exact ihFirst.trans ihSecond

theorem Gave.found (gave : Gave calls position mode issued) (ran : empty.run calls = .ok last) :
    issued ∈ last.issued ∧ last.handles[position]? = some issued.handle ∧ issued.mode = mode := by
  rcases gave with ⟨history, next, made, stepped, given⟩
  rcases made.extends ran with ⟨sound, same, steppedSame, earlier, later⟩
  rw [stepped] at steppedSame
  cases steppedSame
  have isIssued : issued ∈ next.issued := by simp [given]
  refine ⟨later.issued.subset isIssued, ?_⟩
  cases does_of_step sound stepped with
  | nothing => simp at given
  | build schema => simp [History.build] at given
  | reuse found | compile found =>
      cases List.append_cancel_left given
      exact ⟨later.found found, rfl⟩

end Calls

/-- All that was given out was asked for by some call, and handles of one cell are of one instance.
-/
structure Traced (calls : List Call) (history : History) : Prop where
  gave : ∀ issued ∈ history.issued, ∃ position, Gave calls position issued.mode issued
  shared : ∀ first second firstHandle secondHandle, history.handles[first]? = some firstHandle →
    history.handles[second]? = some secondHandle → firstHandle.cell = secondHandle.cell →
      SameInstance calls first second

theorem found_concat {handles : List Handle} {position : Nat} {handle other : Handle}
    (found : (handles ++ [handle])[position]? = some other) :
    handles[position]? = some other ∨ position = handles.length ∧ other = handle := by
  rcases Nat.lt_trichotomy position handles.length with inside | rfl | outside
  · rw [List.getElem?_append_left inside] at found
    exact .inl found
  · rw [List.getElem?_concat_length] at found
    cases found
    exact .inr ⟨rfl, rfl⟩
  · rw [List.getElem?_eq_none (by simp; omega)] at found
    cases found

namespace Traced

theorem empty : Traced [] .empty :=
  ⟨by simp [History.empty], by simp [History.empty]⟩

theorem append (traced : Traced calls history) (call : Call) :
    Traced (calls ++ [call]) history := by
  refine ⟨?_, ?_⟩
  · intro issued isIssued
    rcases traced.gave issued isIssued with ⟨position, gave⟩
    exact ⟨position, gave.append [call]⟩
  · intro first second firstHandle secondHandle found secondFound sameCell
    exact (traced.shared first second firstHandle secondHandle found secondFound sameCell).append _

theorem build (traced : Traced calls history) (sound : Sound history) (schema : Schema)
    (call : Call) : Traced (calls ++ [call]) (history.build schema) := by
  refine ⟨(traced.append call).gave, ?_⟩
  intro first second firstHandle secondHandle found secondFound sameCell
  have inside : ∀ (position : Nat) (handle : Handle), history.handles[position]? = some handle →
      handle.cell < history.store.cells.size :=
    fun position handle found => sound.inside handle (List.mem_of_getElem? found)
  -- The cell of the new handle is no cell of an earlier one.
  rcases found_concat found with earlier | ⟨rfl, rfl⟩
  · rcases found_concat secondFound with secondEarlier | ⟨rfl, rfl⟩
    · exact (traced.append call).shared first second _ _ earlier secondEarlier sameCell
    · exact absurd sameCell (Nat.ne_of_lt (inside first firstHandle earlier))
  · rcases found_concat secondFound with secondEarlier | ⟨rfl, rfl⟩
    · exact absurd sameCell (Nat.ne_of_gt (inside second secondHandle secondEarlier))
    · exact .refl _

theorem copy (traced : Traced calls history) (ran : History.empty.run calls = .ok history)
    {position : Nat} {handle : Handle} (isOriginal : history.handles[position]? = some handle) :
    Traced (calls ++ [.clone position])
      { history with handles := history.handles ++ [handle] } := by
  have copied : Copied (calls ++ [.clone position]) position history.handles.length :=
    ⟨history, .of_run ran _, (List.getElem?_eq_some_iff.mp isOriginal).1, rfl⟩
  have before : ∀ place other, (history.handles ++ [handle])[place]? = some other →
      ∃ earlier, history.handles[earlier]? = some other ∧
        SameInstance (calls ++ [.clone position]) earlier place := by
    intro place other found
    rcases found_concat found with earlier | ⟨rfl, rfl⟩
    · exact ⟨place, earlier, .refl _⟩
    · exact ⟨position, isOriginal, .rel _ _ copied⟩
  refine ⟨(traced.append _).gave, ?_⟩
  intro first second firstHandle secondHandle found secondFound sameCell
  rcases before first firstHandle found with ⟨earlier, earlierFound, toFirst⟩
  rcases before second secondHandle secondFound with ⟨other, otherFound, toSecond⟩
  have between := (traced.append (.clone position)).shared earlier other _ _ earlierFound
    otherFound sameCell
  exact (toFirst.symm _ _).trans _ _ _ (between.trans _ _ _ toSecond)

theorem give (traced : Traced calls history) (ran : History.empty.run calls = .ok history)
    {position : Nat} {mode : UnknownKeys} {issued : Issued} {store : Store}
    (stepped : history.step (.compile position mode) =
      .ok { history with store, issued := history.issued ++ [issued] })
    (sameMode : issued.mode = mode) :
    Traced (calls ++ [.compile position mode])
      { history with store, issued := history.issued ++ [issued] } := by
  refine ⟨?_, (traced.append _).shared⟩
  intro other isIssued
  rcases List.mem_append.mp isIssued with before | now
  · exact (traced.append _).gave other before
  · rw [List.mem_singleton.mp now, sameMode]
    exact ⟨position, history, _, .of_run ran _, stepped, rfl⟩

theorem step (traced : Traced calls history) (sound : Sound history)
    (ran : History.empty.run calls = .ok history) (stepped : history.step call = .ok next) :
    Traced (calls ++ [call]) next := by
  cases does_of_step sound stepped with
  | nothing => exact traced.append call
  | build schema => exact traced.build sound schema call
  | copy found => exact traced.copy ran found
  | reuse | compile => exact traced.give ran stepped rfl

end Traced

theorem invariants_of_run (ran : empty.run calls = .ok history) :
    Sound history ∧ Numbered history ∧ Traced calls history := by
  induction calls using List.reverseRecOn generalizing history with
  | nil =>
      cases ran
      exact ⟨.empty, .empty, .empty⟩
  | append_singleton calls call ih =>
      rcases Sound.empty.run calls with ⟨middle, ranMiddle, sound, -⟩
      rcases ih ranMiddle with ⟨-, numbered, traced⟩
      rcases sound.step call with ⟨next, stepped, nextSound, -⟩
      rw [run_concat ranMiddle stepped] at ran
      cases ran
      exact ⟨nextSound, numbered.step sound stepped, traced.step sound ranMiddle stepped⟩

section Run

variable (ran : empty.run calls = .ok history) (sound : Sound history)
  (numbered : Numbered history) (traced : Traced calls history)

include ran numbered traced

/-- A cell keeps a program exactly if a call has asked for it at a handle of the same instance. -/
theorem kept_iff_gave {position : Nat} {handle : Handle}
    (found : history.handles[position]? = some handle) (mode : UnknownKeys) :
    (∃ compiled, history.store.compiled? handle.cell mode = some compiled) ↔
      ∃ earlier given, Gave calls earlier mode given ∧ SameInstance calls earlier position := by
  constructor
  · rintro ⟨compiled, there⟩
    rcases numbered.kept handle.cell mode compiled there with ⟨given, isGiven, sameCell, rfl⟩
    rcases traced.gave given isGiven with ⟨earlier, gave⟩
    rcases gave.found ran with ⟨-, earlierFound, -⟩
    exact ⟨earlier, given, gave, traced.shared _ _ _ _ earlierFound found sameCell⟩
  · rintro ⟨earlier, given, gave, same⟩
    rcases gave.found ran with ⟨isGiven, earlierFound, rfl⟩
    have sameCell := same.cell_eq ran
    rw [earlierFound, found, Option.map_some, Option.map_some, Option.some.injEq] at sameCell
    rw [← sameCell]
    exact ⟨given.compiled, numbered.given given isGiven⟩

include sound in
theorem exists_event {position : Nat} (inside : position < history.handles.length)
    (mode : UnknownKeys) :
    ∃ next issued, history.step (.compile position mode) = .ok next ∧
      next.issued = history.issued ++ [issued] ∧
      ((issued.event.level = "DEBUG" ∧ issued.event.message = "compiled schema") ↔
        ¬∃ earlier given, Gave calls earlier mode given ∧ SameInstance calls earlier position) ∧
      ((issued.event.level = "TRACE" ∧ issued.event.message = "reusing compiled schema") ↔
        ∃ earlier given, Gave calls earlier mode given ∧ SameInstance calls earlier position) := by
  have found := List.getElem?_eq_getElem inside
  generalize history.handles[position] = handle at found
  rw [← kept_iff_gave ran numbered traced found mode]
  have cellInside := sound.inside handle (List.mem_of_getElem? found)
  rcases Store.fetch_kept_or_compiled cellInside mode with
    ⟨compiled, there, fetch⟩ | ⟨store, compiles, fetch⟩
  · refine ⟨_, _, step_compile found fetch, rfl, ?_, ?_⟩
    · simp [Event.level, there]
    · simp [Event.level, Event.message, there]
  · refine ⟨_, _, step_compile found fetch, rfl, ?_, ?_⟩
    · simp [Event.level, Event.message, compiledEvent, compiles.missing]
    · simp [Event.level, compiledEvent, compiles.missing]

theorem number_eq_iff {first second : Nat} {mode otherMode : UnknownKeys}
    {issued otherIssued : Issued} (gave : Gave calls first mode issued)
    (otherGave : Gave calls second otherMode otherIssued) :
    (issued.compiled.number = otherIssued.compiled.number ↔
      SameInstance calls first second ∧ mode = otherMode) ∧
      (issued.compiled.number = otherIssued.compiled.number →
        issued.compiled = otherIssued.compiled) := by
  rcases gave.found ran with ⟨isIssued, found, rfl⟩
  rcases otherGave.found ran with ⟨otherIsIssued, otherFound, rfl⟩
  have there := numbered.given issued isIssued
  have otherThere := numbered.given otherIssued otherIsIssued
  -- Where the cells and the treatments are the same, the same program is kept.
  have same_of : issued.handle.cell = otherIssued.handle.cell → issued.mode = otherIssued.mode →
      issued.compiled = otherIssued.compiled := by
    intro sameCell sameMode
    rw [sameCell, sameMode, otherThere] at there
    exact (Option.some.inj there).symm
  have unique := numbered.unique _ _ _ _ _ _ there otherThere
  refine ⟨⟨?_, ?_⟩, ?_⟩
  · intro sameNumber
    rcases unique sameNumber with ⟨sameCell, sameMode⟩
    exact ⟨traced.shared _ _ _ _ found otherFound sameCell, sameMode⟩
  · rintro ⟨same, sameMode⟩
    have sameCell := same.cell_eq ran
    rw [found, otherFound, Option.map_some, Option.map_some, Option.some.injEq] at sameCell
    rw [same_of sameCell sameMode]
  · intro sameNumber
    exact same_of (unique sameNumber).1 (unique sameNumber).2

omit ran numbered in
include sound in
/-- What a handle finds kept is changed only by asking for it at a handle of the same instance. -/
theorem asked_of_change (stepped : history.step call = .ok next) {position : Nat}
    {handle : Handle} (found : history.handles[position]? = some handle) {mode : UnknownKeys}
    (changes : next.store.compiled? handle.cell mode ≠
      history.store.compiled? handle.cell mode) :
    ∃ asked, call = .compile asked mode ∧ SameInstance calls asked position := by
  cases does_of_step sound stepped with
  | nothing => exact absurd rfl changes
  | build schema => exact absurd (Store.compiled?_add history.store schema _ _) changes
  | copy => exact absurd rfl changes
  | reuse => exact absurd rfl changes
  | @compile asked askedMode askedHandle store askedFound compiles =>
      rw [compiles.changed] at changes
      split at changes
      · rename_i here
        rcases here with ⟨sameCell, rfl⟩
        exact ⟨asked, rfl, traced.shared _ _ _ _ askedFound found sameCell.symm⟩
      · exact absurd rfl changes

end Run

/-- After any calls, asking for a program of a handle logs one event. It is the event of compiling
exactly if no call before has asked for the same treatment of unknown keys at a handle of the same
instance, and of reusing else. Two calls are given the same program, which has a number of its own,
exactly if they ask for the same treatment at handles of the same instance. A call adds the schema
that it builds or copies, where a copy shares the cell of its original and a schema that is built
shares no cell, or it adds the validators that it asks for. No call changes a handle or a program
that is kept, and what a handle finds kept changes only by asking at a handle of the same instance
for the same treatment. -/
theorem run_compiles_once (calls : List Call) :
    ∃ history, empty.run calls = .ok history ∧
      (∀ (position : Nat) (mode : UnknownKeys), position < history.handles.length →
        ∃ next issued, history.step (.compile position mode) = .ok next ∧
          next.issued = history.issued ++ [issued] ∧
          ((issued.event.level = "DEBUG" ∧ issued.event.message = "compiled schema") ↔
            ¬∃ earlier given, Gave calls earlier mode given ∧
              SameInstance calls earlier position) ∧
          ((issued.event.level = "TRACE" ∧ issued.event.message = "reusing compiled schema") ↔
            ∃ earlier given, Gave calls earlier mode given ∧
              SameInstance calls earlier position)) ∧
      (∀ (first second : Nat) (mode otherMode : UnknownKeys) (issued otherIssued : Issued),
        Gave calls first mode issued → Gave calls second otherMode otherIssued →
          (issued.compiled.number = otherIssued.compiled.number ↔
            SameInstance calls first second ∧ mode = otherMode) ∧
          (issued.compiled.number = otherIssued.compiled.number →
            issued.compiled = otherIssued.compiled)) ∧
      ∀ call : Call, ∃ next, empty.run (calls ++ [call]) = .ok next ∧
        history.step call = .ok next ∧ history.Adds call next ∧
        history.handles <+: next.handles ∧
        ∀ (position : Nat) (handle : Handle), history.handles[position]? = some handle →
          ∀ mode : UnknownKeys,
            (∀ compiled, history.store.compiled? handle.cell mode = some compiled →
              next.store.compiled? handle.cell mode = some compiled) ∧
            (next.store.compiled? handle.cell mode ≠ history.store.compiled? handle.cell mode →
              ∃ asked, call = .compile asked mode ∧ SameInstance calls asked position) := by
  rcases Sound.empty.run calls with ⟨history, ran, -, -⟩
  rcases invariants_of_run ran with ⟨sound, numbered, traced⟩
  refine ⟨history, ran, ?_, ?_, ?_⟩
  · intro position mode inside
    exact exists_event ran sound numbered traced inside mode
  · intro first second mode otherMode issued otherIssued gave otherGave
    exact number_eq_iff ran numbered traced gave otherGave
  · intro call
    rcases sound.step call with ⟨next, stepped, -, adds⟩
    have earlier := Extends.of_step sound stepped
    refine ⟨next, run_concat ran stepped, stepped, adds, adds.handles_prefix, ?_⟩
    intro position handle found mode
    refine ⟨earlier.kept handle.cell mode, ?_⟩
    intro changes
    exact asked_of_change sound traced stepped found changes

/-- An instance is compiled when it is first asked for, and its copy is given the same program. The
schema that accepts `null` too is another instance, which is compiled for each of the treatments. -/
theorem run_compiles_once_copy_and_toggle :
    let calls : List Call := [.new [], .compile 0 .ignore, .compile 0 .ignore, .clone 0,
      .compile 1 .ignore, .nullable 1, .compile 2 .ignore, .compile 2 .reject]
    ∃ history, empty.run calls = .ok history ∧
      history.handles.map Handle.cell = [0, 0, 1] ∧
      history.issued.map (fun issued => (issued.event.level, issued.compiled.number)) =
        [("DEBUG", 0), ("TRACE", 0), ("TRACE", 0), ("DEBUG", 1), ("DEBUG", 2)] ∧
      ∀ position < 3, ∀ mode : UnknownKeys, ∃ next issued,
        history.step (.compile position mode) = .ok next ∧
        next.issued = history.issued ++ [issued] ∧
        ((issued.event.level = "TRACE" ∧ issued.event.message = "reusing compiled schema") ↔
          ∃ earlier given, Gave calls earlier mode given ∧
            SameInstance calls earlier position) := by
  intro calls
  have shown : (empty.run calls).map (fun history => (history.handles.map Handle.cell,
      history.issued.map fun issued => (issued.event.level, issued.compiled.number))) =
      .ok ([0, 0, 1],
        [("DEBUG", 0), ("TRACE", 0), ("TRACE", 0), ("DEBUG", 1), ("DEBUG", 2)]) := by
    decide +kernel
  rcases run_compiles_once calls with ⟨history, ran, events, -⟩
  rw [ran, Except.map, Except.ok.injEq, Prod.mk.injEq] at shown
  refine ⟨history, ran, shown.1, shown.2, ?_⟩
  intro position inside mode
  have handles : history.handles.length = 3 := by
    simpa using congrArg List.length shown.1
  rcases events position mode (by omega) with ⟨next, issued, stepped, given, -, reused⟩
  exact ⟨next, issued, stepped, given, reused⟩

end History

end Cache

end JsonShape
