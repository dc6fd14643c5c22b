import Clausal.Json.Read
import Clausal.Surface.Definition
import Clausal.Value.Operator
import Clausal.Contract.ValueModule
import Clausal.Core.Render
import Clausal.Core.Decode
import Clausal.Program.Compile
import Clausal.Machine.Basic
import Clausal.Command
import Clausal.Main
import Clausal.Proofs.Unbound
import Clausal.Proofs.Depth
import Clausal.Proofs.Termination
import Clausal.Proofs.Lowering.Convention
import Clausal.Proofs.Preservation
import Clausal.Proofs.Records
import Clausal.Proofs.Structs.FieldModules
import Clausal.Proofs.Syntax.Constants
import Clausal.Proofs.Encoding
import Clausal.Proofs.Shape
import Clausal.Proofs.Structs.Revalidation
import Clausal.Proofs.Decimal.Literal
import Clausal.Proofs.Rendering.Alike
import Clausal.Proofs.Rendering.Faithful
import Clausal.Proofs.Lowering.Heads
import Clausal.Proofs.Matching
import Clausal.Proofs.Syntax.Ending
import Clausal.Proofs.Syntax.Segmentation
import Clausal.Proofs.Structs.Updating
import Clausal.Proofs.Structs.Cycles
import Clausal.Proofs.Lowering.ConstantValue
import Clausal.Proofs.Structs.Entrances
import Clausal.Proofs.Values.Maps
import Clausal.Proofs.Values.LooseEquality
import Clausal.Proofs.Arguments
import Clausal.Proofs.BoundedModules
import Clausal.Proofs.Arithmetic
import Clausal.Proofs.Syntax.Quoting
import Clausal.Proofs.Syntax.TokensAhead
import Clausal.Proofs.Syntax.Recovery
import Clausal.Proofs.Syntax.Spans
import Clausal.Proofs.Syntax.Passing
import Clausal.Proofs.Syntax.Covering
import Clausal.Proofs.Syntax.SpanTree
import Clausal.Proofs.TypeVariables
import Clausal.Proofs.Lines
import Clausal.Proofs.Syntax.Everywhere
import Clausal.Proofs.Lowering.Literals
import Clausal.Proofs.Negation
