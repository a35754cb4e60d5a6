import JsonShape.Check.Parser
import JsonShape.Program.Lowering

/-!
# Compiling check expressions

`Program.compile` reads a source and lowers its expression. The program keeps the source.
-/

namespace JsonShape

open Check

def Program.compile (source : String) : Except Check.Error Program :=
  match Token.scan source.toList with
  | .error error => .error error
  | .ok tokens =>
      match Expr.ofTokens tokens with
      | .error error => .error error
      | .ok (expr, slots) => .ok (Program.ofExpr source expr slots)

end JsonShape
