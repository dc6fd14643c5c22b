import Clausal.Value.Display

/-!
# Faults of a running program

Why a call ends without a value, and how each cause is worded.
-/

namespace Clausal

inductive Fault where
  /-- A value was refused by the module that checks it. -/
  | validation (name : String) (value : Value) (diagnostic : String)
  /-- No clause of a function takes the arguments. -/
  | noClause (function : String) (args : List Value)
  | undefinedFunction (name : String)
  | unknownModule (name : String)
  | typeError (message : String)
  | arity (function expected : String) (got : Nat)
  | divisionByZero
  | overflow (operation : String)
  | stackOverflow (limit : Nat)
  | missingField (field typeName : String)
  deriving Inhabited

namespace Fault

def message : Fault → String
  | validation name value diagnostic =>
      "ValidationError: validation error for " ++ name ++ ": " ++ diagnostic
        ++ " (got " ++ value.render ++ ")"
  | noClause function args =>
      "NoClauseMatch: no clause of " ++ function ++ " matches ("
        ++ ", ".intercalate (args.map Value.render) ++ ")"
  | undefinedFunction name => "UndefinedFunctionError: " ++ name ++ " is undefined"
  | unknownModule name => "UnknownModuleError: no value module named " ++ name
  | typeError what => "TypeError: " ++ what
  | arity function expected got =>
      "ArityError: " ++ function ++ " expects " ++ expected ++ " argument(s), got " ++ toString got
  | divisionByZero => "DivideError: division by zero"
  | overflow operation => "OverflowError: " ++ operation
  | stackOverflow limit => "StackOverflowError: call depth exceeded " ++ toString limit
  | missingField field typeName =>
      "FieldError: field " ++ field ++ " not found in " ++ typeName

/-- Whether a call was turned away before its body ran. -/
def isDispatchFailure : Fault → Bool
  | validation .. | noClause .. => true
  | _ => false

end Fault

end Clausal
