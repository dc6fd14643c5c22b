import Clausal.Spec.Basic
import Clausal.Spec.Error

/-!
# From requests to code

A single body is entered through one implementation that binds all parameters: its guard is the
conjunction of what the `guard[..]` parameters ask for, and its body begins with the validations
the `validate[..]` parameters ask for.  A clause body has one implementation for each clause, and
its parameters may ask for nothing.
-/

namespace Clausal
namespace Compile

open Clausal.Core (Expr Stmt Pattern Builtin Implementation)

/-! ## Guards -/

/-- The builtin that tests a base type; `any` has none. -/
def testFor? : BaseType → Option Builtin
  | .integer => some .isInteger
  | .float => some .isFloat
  | .boolean => some .isBoolean
  | .text => some .isText
  | .binary => some .isBinary
  | .list => some .isList
  | .tuple => some .isTuple
  | .map => some .isMap
  | .function => some .isFunction
  | .pid => some .isPid
  | .reference => some .isReference
  | .any => none

/-- The builtin that tests a type under some constraints. -/
def typeTest? (constraints : List TypeConstraint) (type : TypeExpr) : Option Builtin :=
  match type.resolve? constraints with
  | some (.base base) => testFor? base
  | _ => none

/-- The advice for a type that no guard can test. -/
def guardHint : TypeExpr → String
  | .external name => "use validate[" ++ name ++ "] for value modules"
  | .selfType => "use validate[self] for the module's own type"
  | _ => "guards need a concrete base type other than any"

/-- The guard a parameter asks for. -/
def paramGuard? (constraints : List TypeConstraint) (param : ParamSpec) :
    Except CompileError (Option Expr) :=
  match param.mode with
  | .guard =>
      match typeTest? constraints param.type with
      | some test => .ok (some (.call (.builtin test) [.var param.slot]))
      | none =>
          .error (CompileError.withHint
            ⟨.unsupportedGuardType param.name param.type.render, param.span, none⟩
            (guardHint param.type))
  | _ => .ok none

/-- Joins a guard to those before it. -/
def conjoin : Option Expr → Option Expr → Option Expr
  | before, none => before
  | none, some guard => some guard
  | some before, some guard => some (.binary .and before guard)

/-- The conjunction of `before` and the guards of some parameters. -/
def combinedGuard (constraints : List TypeConstraint) :
    (before : Option Expr) → List ParamSpec → Except CompileError (Option Expr)
  | before, [] => .ok before
  | before, param :: rest =>
      match paramGuard? constraints param with
      | .error e => .error e
      | .ok guard => combinedGuard constraints (conjoin before guard) rest

/-! ## Validations -/

/-- The advice for a type that is no value module. -/
def validationHint : TypeExpr → String
  | .base base => "use guard[" ++ base.name ++ "] for base types"
  | _ => "validate[...] needs a value module or self"

/-- The validation a parameter of a function in module `owner` asks for. -/
def paramValidation? (owner : String) (param : ParamSpec) : Except CompileError (Option Stmt) :=
  match param.mode with
  | .validate =>
      match param.type with
      | .external checker => .ok (some (.validate param.slot checker))
      | .selfType => .ok (some (.validate param.slot owner))
      | other =>
          .error (CompileError.withHint
            ⟨.unsupportedValidationType param.name other.render, param.span, none⟩
            (validationHint other))
  | _ => .ok none

def validations (owner : String) : List ParamSpec → Except CompileError (List Stmt)
  | [] => .ok []
  | param :: rest =>
      match paramValidation? owner param with
      | .error e => .error e
      | .ok stmt => (validations owner rest).map (stmt.toList ++ ·)

/-! ## Clauses -/

/-- The advice for a clause body whose parameters ask for something. -/
def conflictHint : String := "use a single body, or check the type in each clause guard"

/-- A clause body leaves the tests of its parameters to its clauses. -/
def checkConflicts (spec : FunctionSpec) : Except CompileError Unit :=
  match spec.params.find? fun p => p.mode == .guard with
  | some param =>
      .error (CompileError.withHint
        ⟨.clauseGuardConflict spec.name param.name, param.span, none⟩ conflictHint)
  | none =>
      match spec.params.find? fun p => p.mode == .validate with
      | some param =>
          .error (CompileError.withHint
            ⟨.clauseValidationConflict spec.name param.name, param.span, none⟩ conflictHint)
      | none => .ok ()

/-- A clause has a pattern for each parameter, and its guard runs no other code. -/
def clauseImplementation (spec : FunctionSpec) (clause : ClauseSpec) :
    Except CompileError Implementation :=
  if clause.patterns.length ≠ spec.arity then
    .error ⟨.clauseArityMismatch spec.name spec.arity clause.patterns.length, clause.span, none⟩
  else
    match clause.guard.bind Expr.unsafeCall? with
    | some what => .error ⟨.unsafeGuard what, clause.span, none⟩
    | none => .ok { patterns := clause.patterns, guard := clause.guard, body := clause.body }

def clauseImplementations (spec : FunctionSpec) :
    List ClauseSpec → Except CompileError (List Implementation)
  | [] => .ok []
  | clause :: rest =>
      match clauseImplementation spec clause with
      | .error e => .error e
      | .ok implementation => (clauseImplementations spec rest).map (implementation :: ·)

/-- The implementations of a function in module `owner`. -/
def implementations (owner : String) (spec : FunctionSpec) :
    Except CompileError (List Implementation) :=
  match spec.body with
  | .clauses clauses => do
      checkConflicts spec
      clauseImplementations spec clauses
  | .single body => do
      let guard ← combinedGuard spec.constraints none spec.params
      let checks ← validations owner spec.params
      return [{ patterns := spec.params.map fun p => .bind p.slot, guard, body := checks ++ body }]

end Compile
end Clausal
