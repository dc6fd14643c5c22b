import Clausal.Source.Span

/-!
# Compile errors

What can be wrong with a source file that can be read, and how each fault is worded.
-/

namespace Clausal

namespace CompileError

inductive Cause where
  | unsupportedGuardType (param type : String)
  | unsupportedValidationType (param type : String)
  | clauseGuardConflict (function param : String)
  | clauseValidationConflict (function param : String)
  | duplicateSignature (owner function : String)
  | clauseArityMismatch (function : String) (expected found : Nat)
  | unsafeGuard (what : String)
  | invalidType (what : String)
  | unboundVariable (name : String)
  | invalidPattern (what : String)
  | duplicateParameter (name : String)
  | duplicateField (name : String)
  | recursiveStruct (cycle : List String)
  | unsupportedExpression (what : String)
  deriving DecidableEq, Repr, Inhabited

def Cause.message : Cause → String
  | unsupportedGuardType param type =>
      "cannot guard parameter " ++ param ++ " on type " ++ type
  | unsupportedValidationType param type =>
      "cannot validate parameter " ++ param ++ ": " ++ type ++ " is not a value module"
  | clauseGuardConflict function param =>
      function ++ " has a clause body and a guarded parameter " ++ param
  | clauseValidationConflict function param =>
      function ++ " has a clause body and a validated parameter " ++ param
  | duplicateSignature owner function =>
      owner ++ "." ++ function ++ " is declared more than once"
  | clauseArityMismatch function expected found =>
      "clause of " ++ function ++ " has " ++ toString found ++ " pattern(s), expected "
        ++ toString expected
  | unsafeGuard what => "guard may only call builtins, found " ++ what
  | invalidType what => "invalid type expression: " ++ what
  | unboundVariable name => "unbound variable " ++ name
  | invalidPattern what => "invalid pattern: " ++ what
  | duplicateParameter name => "duplicate parameter " ++ name
  | duplicateField name => "duplicate struct field " ++ name
  | recursiveStruct cycle => "struct fields form a cycle: " ++ " -> ".intercalate cycle
  | unsupportedExpression what => "unsupported expression: " ++ what

end CompileError

/-- A cause, where it was found, and advice. -/
structure CompileError where
  cause : CompileError.Cause
  span : Span
  hint : Option String := none
  deriving DecidableEq, Repr, Inhabited

namespace CompileError

def withHint (e : CompileError) (hint : String) : CompileError := { e with hint := some hint }

def unbound (name : String) (span : Span) : CompileError := ⟨.unboundVariable name, span, none⟩

def unsupported (what : String) (span : Span) : CompileError :=
  ⟨.unsupportedExpression what, span, none⟩

def message (e : CompileError) : String :=
  e.cause.message
    ++ (if e.span.isSynthetic then "" else " at " ++ e.span.render)
    ++ (match e.hint with
        | some hint => " (hint: " ++ hint ++ ")"
        | none => "")

end CompileError

end Clausal
