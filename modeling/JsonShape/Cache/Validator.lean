import JsonShape.Cache.Store
import JsonShape.Program.Evaluation

/-!
# Validators

A validator checks values against one schema, either by walking the schema or by running a program
that was compiled for it.
-/

namespace JsonShape

namespace Cache

/-- A way to check values against a schema. -/
inductive Validator
  /-- Walks the schema. -/
  | walking (schema : Schema) (mode : UnknownKeys)
  /-- Runs a program. -/
  | running (compiled : Compiled)

namespace Validator

/-- Whether a value, or the absence of one, is accepted. -/
def accepts : Validator → Option Json → Bool
  | .walking schema mode, value => schema.accepts mode value
  | .running compiled, value => compiled.program.evaluate value

/-- Gives a value back as it is. Nothing is checked, so this is meant for values that have been
accepted. -/
def parse (_validator : Validator) (value : Json) : Json :=
  value

end Validator

end Cache

end JsonShape
