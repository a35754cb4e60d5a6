import JsonShape.Proofs.Check.Reading

/-!
# Readers of tokens

A reader is steady if tokens behind those that it has looked at change nothing: a result that
leaves tokens stays, and so does every error but that of an early end. A path goes on for as long as
brackets follow, so a result that leaves no token may change.

A steady reader is patient if the end of the tokens is nothing that it refuses: it says that they
end too early, or reads nothing. Readers in a row are steady if the first is and the others are
patient, and a reader of items, each behind a token that announces it, is patient if the reader of
one item is.
-/

namespace JsonShape

namespace Check

/-- The position that an error gives. -/
def Error.offset? : Error → Option Nat
  | .unexpectedChar offset _ | .invalidString offset | .unexpectedToken offset
  | .unknownName offset _ => some offset
  | .unexpectedEnd | .unknownType _ => none

namespace Parser

/-- What a reader makes of some tokens: a value, and the tokens that it leaves. -/
abbrev Reader (Value : Type) := List Located → Except Error (Value × List Located)

variable {Value Next : Type}

/-- A reader does not depend on what follows the tokens that it looks at, and its errors stand at
one of the tokens or at the given offset in front of them. -/
structure Steady (before : Nat) (reader : Reader Value) : Prop where
  suffix : ∀ {tokens rest value}, reader tokens = .ok (value, rest) → rest <:+ tokens
  passes : ∀ {tokens rest value}, reader tokens = .ok (value, rest) → rest ≠ [] →
    ∀ more, reader (tokens ++ more) = .ok (value, rest ++ more)
  fails : ∀ {tokens error}, reader tokens = .error error → error ≠ .unexpectedEnd →
    ∀ more, reader (tokens ++ more) = .error error
  blames : ∀ {tokens error}, reader tokens = .error error → ∀ offset ∈ error.offset?,
    offset = before ∨ offset ∈ tokens.map Located.offset

/-- A steady reader whose errors stand at its own tokens, and which refuses the end of the tokens
only by saying that they end. -/
structure Patient (reader : Reader Value) : Prop where
  steady : ∀ before, Steady before reader
  waits : ∀ error, reader [] = .error error → error = .unexpectedEnd

/-- Two readers in a row. -/
def andThen (first : Reader Value) (second : Value → Reader Next) : Reader Next :=
  fun tokens =>
    match first tokens with
    | .error error => .error error
    | .ok (value, rest) => second value rest

/-- Reads nothing. -/
def give (value : Value) : Reader Value :=
  fun tokens => .ok (value, tokens)

/-- Refuses whatever follows. -/
def refuse (error : Error) : Reader Value :=
  fun _ => .error error

section Combinators

variable {before : Nat}

theorem patient_give (value : Value) : Patient (give value) := by
  refine ⟨fun before => ⟨?_, ?_, nofun, nofun⟩, nofun⟩
  · rintro tokens rest found ⟨⟩
    exact List.suffix_rfl
  · rintro tokens rest found ⟨⟩ nonempty more
    rfl

theorem steady_refuse {error : Error} (placed : ∀ offset ∈ error.offset?, offset = before) :
    Steady before (refuse error : Reader Value) := by
  refine ⟨nofun, nofun, ?_, ?_⟩
  · rintro tokens other ⟨⟩ hard more
    rfl
  · rintro tokens other ⟨⟩ offset isOffset
    exact .inl (placed offset isOffset)

/-- A reader that asks for a token is patient if it is steady behind each token. -/
theorem patient_of_head {reader : Reader Value} (atEnd : reader [] = .error .unexpectedEnd)
    (steady : ∀ head, Steady head.offset fun tail => reader (head :: tail)) : Patient reader := by
  refine ⟨fun before => ⟨?_, ?_, ?_, ?_⟩, ?_⟩
  · intro tokens rest value read
    cases tokens with
    | nil =>
        rw [atEnd] at read
        cases read
    | cons head tail => exact ((steady head).suffix read).trans (List.suffix_cons head tail)
  · intro tokens rest value read nonempty more
    cases tokens with
    | nil =>
        rw [atEnd] at read
        cases read
    | cons head tail => exact (steady head).passes read nonempty more
  · intro tokens error failed hard more
    cases tokens with
    | nil =>
        rw [atEnd] at failed
        cases failed
        exact absurd rfl hard
    | cons head tail => exact (steady head).fails failed hard more
  · intro tokens error failed offset isOffset
    cases tokens with
    | nil =>
        rw [atEnd] at failed
        cases failed
        cases isOffset
    | cons head tail =>
        right
        rcases (steady head).blames failed offset isOffset with rfl | later
        · simp
        · exact List.mem_cons_of_mem _ later
  · intro error failed
    rw [atEnd] at failed
    cases failed
    rfl

/-- The token that has just been passed is refused. -/
theorem steady_unexpected (offset : Nat) :
    Steady offset (refuse (.unexpectedToken offset) : Reader Value) := by
  apply steady_refuse
  rintro blamed ⟨⟩
  rfl

theorem andThen_of_ok {first : Reader Value} {second : Value → Reader Next}
    {tokens rest : List Located} {value : Value} (read : first tokens = .ok (value, rest)) :
    andThen first second tokens = second value rest := by
  rw [andThen, read]

theorem andThen_of_error {first : Reader Value} {second : Value → Reader Next}
    {tokens : List Located} {error : Error} (failed : first tokens = .error error) :
    andThen first second tokens = .error error := by
  rw [andThen, failed]

theorem exists_of_andThen_ok {first : Reader Value} {second : Value → Reader Next}
    {tokens rest : List Located} {next : Next}
    (read : andThen first second tokens = .ok (next, rest)) :
    ∃ value middle, first tokens = .ok (value, middle) ∧
      second value middle = .ok (next, rest) := by
  cases readFirst : first tokens with
  | error error =>
      rw [andThen_of_error readFirst] at read
      cases read
  | ok found =>
      rw [andThen_of_ok readFirst] at read
      exact ⟨found.1, found.2, rfl, read⟩

theorem cases_of_andThen_error {first : Reader Value} {second : Value → Reader Next}
    {tokens : List Located} {error : Error} (failed : andThen first second tokens = .error error) :
    first tokens = .error error ∨
      ∃ value middle, first tokens = .ok (value, middle) ∧ second value middle = .error error := by
  cases readFirst : first tokens with
  | error other =>
      rw [andThen_of_error readFirst] at failed
      cases failed
      exact .inl rfl
  | ok found =>
      rw [andThen_of_ok readFirst] at failed
      exact .inr ⟨found.1, found.2, rfl, failed⟩

variable {first : Reader Value} {second : Value → Reader Next}

theorem steady_andThen (steadyFirst : Steady before first)
    (patient : ∀ value, Patient (second value)) : Steady before (andThen first second) := by
  have steadySecond (value : Value) : Steady before (second value) := (patient value).steady before
  refine ⟨?_, ?_, ?_, ?_⟩
  · intro tokens rest next read
    rcases exists_of_andThen_ok read with ⟨value, middle, readFirst, readSecond⟩
    exact ((steadySecond value).suffix readSecond).trans (steadyFirst.suffix readFirst)
  · intro tokens rest next read nonempty more
    rcases exists_of_andThen_ok read with ⟨value, middle, readFirst, readSecond⟩
    -- the second reader leaves tokens, so the first one did
    have left : middle ≠ [] := by
      rintro rfl
      exact nonempty (List.suffix_nil.mp ((steadySecond value).suffix readSecond))
    rw [andThen_of_ok (steadyFirst.passes readFirst left more)]
    exact (steadySecond value).passes readSecond nonempty more
  · intro tokens error failed hard more
    rcases cases_of_andThen_error failed with failedFirst |
      ⟨value, middle, readFirst, failedSecond⟩
    · exact andThen_of_error (steadyFirst.fails failedFirst hard more)
    · -- at the end of the tokens, a patient reader would only miss more of them
      have left : middle ≠ [] := by
        rintro rfl
        exact hard ((patient value).waits error failedSecond)
      rw [andThen_of_ok (steadyFirst.passes readFirst left more)]
      exact (steadySecond value).fails failedSecond hard more
  · intro tokens error failed offset isOffset
    rcases cases_of_andThen_error failed with failedFirst |
      ⟨value, middle, readFirst, failedSecond⟩
    · exact steadyFirst.blames failedFirst offset isOffset
    · rcases (steadySecond value).blames failedSecond offset isOffset with inFront | inside
      · exact .inl inFront
      · have suffix := (steadyFirst.suffix readFirst).map Located.offset
        exact .inr (suffix.subset inside)

theorem patient_andThen (patientFirst : Patient first)
    (patient : ∀ value, Patient (second value)) : Patient (andThen first second) := by
  refine ⟨fun before => steady_andThen (patientFirst.steady before) patient, ?_⟩
  intro error failed
  rcases cases_of_andThen_error failed with failedFirst |
    ⟨value, middle, readFirst, failedSecond⟩
  · exact patientFirst.waits error failedFirst
  · have none : middle = [] := List.suffix_nil.mp ((patientFirst.steady 0).suffix readFirst)
    subst none
    exact (patient value).waits error failedSecond

end Combinators

/-! ### Readers of items -/

/-- Reads items for as long as each is announced by a token. -/
structure Repeats (start : Token) (item : Reader Value) (loop : Reader (List Value)) : Prop where
  goesOn : ∀ offset tail, loop (⟨offset, start⟩ :: tail) =
    andThen item (fun value => andThen loop fun more => give (value :: more)) tail
  ends : ∀ tokens, Avoids start tokens → loop tokens = .ok ([], tokens)

theorem avoids_or_starts (start : Token) (tokens : List Located) :
    Avoids start tokens ∨ ∃ offset tail, tokens = ⟨offset, start⟩ :: tail := by
  rcases tokens with _ | ⟨⟨offset, token⟩, tail⟩
  · left
    intro head isHead
    cases isHead
  · by_cases same : token = start
    · exact .inr ⟨offset, tail, by rw [same]⟩
    · exact .inl (avoids_cons same)

theorem avoids_append {token : Token} {rest : List Located} (avoids : Avoids token rest)
    (nonempty : rest ≠ []) (more : List Located) : Avoids token (rest ++ more) := by
  cases rest with
  | nil => exact absurd rfl nonempty
  | cons head tail => exact avoids

namespace Repeats

variable {start : Token} {item : Reader Value} {loop : Reader (List Value)}

/-- What the loop makes of tokens: nothing if no item is announced, and else an item and what it
makes of the rest. -/
theorem cases_ok (repeats : Repeats start item loop) {tokens rest : List Located}
    {values : List Value} (read : loop tokens = .ok (values, rest)) :
    (Avoids start tokens ∧ values = [] ∧ rest = tokens) ∨
      ∃ offset tail value middle more, tokens = ⟨offset, start⟩ :: tail ∧
        item tail = .ok (value, middle) ∧ loop middle = .ok (more, rest) ∧
        values = value :: more := by
  rcases avoids_or_starts start tokens with avoids | ⟨offset, tail, rfl⟩
  · rw [repeats.ends tokens avoids] at read
    cases read
    exact .inl ⟨avoids, rfl, rfl⟩
  · right
    rw [repeats.goesOn] at read
    rcases exists_of_andThen_ok read with ⟨value, middle, itemRead, readRest⟩
    rcases exists_of_andThen_ok readRest with ⟨more, left, again, added⟩
    cases added
    exact ⟨offset, tail, value, middle, more, rfl, itemRead, again, rfl⟩

theorem cases_error (repeats : Repeats start item loop) {tokens : List Located} {error : Error}
    (failed : loop tokens = .error error) :
    ∃ offset tail, tokens = ⟨offset, start⟩ :: tail ∧
      (item tail = .error error ∨
        ∃ value middle, item tail = .ok (value, middle) ∧ loop middle = .error error) := by
  rcases avoids_or_starts start tokens with avoids | ⟨offset, tail, rfl⟩
  · rw [repeats.ends tokens avoids] at failed
    cases failed
  refine ⟨offset, tail, rfl, ?_⟩
  rw [repeats.goesOn] at failed
  rcases cases_of_andThen_error failed with itemFailed | ⟨value, middle, itemRead, failedRest⟩
  · exact .inl itemFailed
  · rcases cases_of_andThen_error failedRest with again | ⟨more, left, -, added⟩
    · exact .inr ⟨value, middle, itemRead, again⟩
    · cases added

theorem suffix (repeats : Repeats start item loop) (patient : Patient item)
    {tokens rest : List Located} {values : List Value} (read : loop tokens = .ok (values, rest)) :
    rest <:+ tokens := by
  rcases repeats.cases_ok read with ⟨-, -, rfl⟩ | ⟨offset, tail, value, middle, more, rfl,
    itemRead, again, -⟩
  · exact List.suffix_rfl
  · have itemSuffix := (patient.steady 0).suffix itemRead
    have shorter := itemSuffix.length_le
    exact ((suffix repeats patient again).trans itemSuffix).trans (List.suffix_cons _ _)
termination_by tokens.length
decreasing_by
  subst_vars
  exact Nat.lt_succ_of_le shorter

theorem passes (repeats : Repeats start item loop) (patient : Patient item)
    {tokens rest : List Located} {values : List Value} (read : loop tokens = .ok (values, rest))
    (nonempty : rest ≠ []) (behind : List Located) :
    loop (tokens ++ behind) = .ok (values, rest ++ behind) := by
  rcases repeats.cases_ok read with ⟨avoids, rfl, rfl⟩ | ⟨offset, tail, value, middle, more, rfl,
    itemRead, again, rfl⟩
  · exact repeats.ends _ (avoids_append avoids nonempty behind)
  · have shorter := ((patient.steady 0).suffix itemRead).length_le
    have left : middle ≠ [] := by
      rintro rfl
      exact nonempty (List.suffix_nil.mp (repeats.suffix patient again))
    rw [List.cons_append, repeats.goesOn,
      andThen_of_ok ((patient.steady 0).passes itemRead left behind),
      andThen_of_ok (passes repeats patient again nonempty behind)]
    rfl
termination_by tokens.length
decreasing_by
  subst_vars
  exact Nat.lt_succ_of_le shorter

theorem fails (repeats : Repeats start item loop) (patient : Patient item)
    {tokens : List Located} {error : Error} (failed : loop tokens = .error error)
    (hard : error ≠ .unexpectedEnd) (behind : List Located) :
    loop (tokens ++ behind) = .error error := by
  rcases repeats.cases_error failed with ⟨offset, tail, rfl, itemFailed | ⟨value, middle, itemRead,
    again⟩⟩
  · rw [List.cons_append, repeats.goesOn,
      andThen_of_error ((patient.steady 0).fails itemFailed hard behind)]
  · have shorter := ((patient.steady 0).suffix itemRead).length_le
    have left : middle ≠ [] := by
      rintro rfl
      rw [repeats.ends [] (by simp [Avoids])] at again
      cases again
    rw [List.cons_append, repeats.goesOn,
      andThen_of_ok ((patient.steady 0).passes itemRead left behind),
      andThen_of_error (fails repeats patient again hard behind)]
termination_by tokens.length
decreasing_by
  subst_vars
  exact Nat.lt_succ_of_le shorter

theorem blames (repeats : Repeats start item loop) (patient : Patient item)
    {tokens : List Located} {error : Error} (failed : loop tokens = .error error) :
    ∀ offset ∈ error.offset?, offset ∈ tokens.map Located.offset := by
  intro blamed isBlamed
  rcases repeats.cases_error failed with ⟨offset, tail, rfl, itemFailed | ⟨value, middle, itemRead,
    again⟩⟩
  · rcases (patient.steady offset).blames itemFailed blamed isBlamed with rfl | inside
    · simp
    · exact List.mem_cons_of_mem _ inside
  · have itemSuffix := (patient.steady 0).suffix itemRead
    have shorter := itemSuffix.length_le
    have inside := blames repeats patient again blamed isBlamed
    exact List.mem_cons_of_mem _ ((itemSuffix.map Located.offset).subset inside)
termination_by tokens.length
decreasing_by
  subst_vars
  exact Nat.lt_succ_of_le shorter

theorem patient (repeats : Repeats start item loop) (patientItem : Patient item) :
    Patient loop := by
  refine ⟨fun before => ⟨repeats.suffix patientItem, repeats.passes patientItem,
    repeats.fails patientItem, ?_⟩, ?_⟩
  · intro tokens error failed offset isOffset
    exact .inr (repeats.blames patientItem failed offset isOffset)
  · intro error failed
    rw [repeats.ends [] (by simp [Avoids])] at failed
    cases failed

end Repeats

end Parser

end Check

end JsonShape
