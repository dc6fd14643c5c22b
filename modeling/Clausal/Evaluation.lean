import Clausal.Config
import Clausal.Machine.Basic
import Clausal.Program.Compile

/-!
# Evaluating a source text

A source text is compiled and one of its functions is called, in one step and with the settings of
an empty project.
-/

namespace Clausal

/-- Why a source text was not evaluated. -/
inductive EvaluationError where
  | source (error : SourceError)
  | fault (fault : Fault)
  deriving Inhabited

def EvaluationError.message : EvaluationError → String
  | source e => e.message
  | fault f => "runtime error: " ++ f.message

/-- Calls a function, named as `Module.function`, of a source text. -/
def evaluateSource (source : List Char) (registry : Registry) (qualified : String)
    (args : List Value) : Except EvaluationError Value := do
  let config : CompilerConfig := {}
  let program ← (compileSource config.defaultModule source).mapError .source
  let machine ← (Machine.build program registry config.maxDepth).mapError .fault
  (machine.callQualified qualified args).mapError .fault

end Clausal
