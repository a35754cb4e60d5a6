import JsonShape.Cache.Validator
import JsonShape.Check.Grammar
import JsonShape.Description.Reading
import JsonShape.Json.Text
import JsonShape.Program.Layout
import JsonShape.Proofs.Program.Lowering
import JsonShape.Proofs.Program.Execution
import JsonShape.Proofs.Program.Meaning
import JsonShape.Proofs.Check.Formula
import JsonShape.Proofs.Check.Reading
import JsonShape.Proofs.Check.Soundness
import JsonShape.Proofs.Check.Completeness
import JsonShape.Proofs.Json.Quoted
import JsonShape.Proofs.Check.Lexing
import JsonShape.Proofs.Schema.Tokens
import JsonShape.Proofs.Schema.Formula
import JsonShape.Proofs.Program.Compilation
import JsonShape.Proofs.Schema.Emission
import JsonShape.Cache.History
import JsonShape.Proofs.Cache.History
import JsonShape.Proofs.Schema.Equality
import JsonShape.Proofs.Cache.Instances
import JsonShape.Proofs.Schema.Pruning
import JsonShape.Proofs.Schema.Renaming
import JsonShape.Proofs.Description.RoundTrip
import JsonShape.Proofs.Description.Canonical
import JsonShape.Proofs.Description.Faults
import JsonShape.Proofs.Program.Safety
import JsonShape.Proofs.Schema.Numbering
import JsonShape.Proofs.Schema.Translation
import JsonShape.Proofs.Check.Persistence
import JsonShape.Proofs.Check.Viability
import JsonShape.Proofs.Check.Resolution
import JsonShape.Proofs.Check.Scanning
import JsonShape.Proofs.Program.Loading
import JsonShape.Proofs.Program.Errors
import JsonShape.Proofs.Program.Resolution
import JsonShape.Proofs.Schema.Size
import JsonShape.Proofs.Schema.Loosening
import JsonShape.Proofs.Program.Skeleton
import JsonShape.Proofs.Check.Splitting
import JsonShape.Proofs.Check.Operands
