import Clausal.Spec.Signature
import Clausal.Spec.Pattern

/-!
# Lowering of functions

The parameters take the first slots of a function.  Their defaults are lowered in the empty scope.
A body is a list of clauses if every entry of it is one, `(patterns) -> body` or
`(patterns) when guard -> body`, and a single block otherwise; the block sees the parameters, a
clause only what its head binds.
-/

namespace Clausal
namespace Lowering

open Clausal.Core (Bindings)

/-- Applies a function that can fail to every item, in order, up to the first failure. -/
def traverse {α β : Type} (f : α → Except CompileError β) :
    List α → Except CompileError (List β)
  | [] => .ok []
  | a :: as =>
      match f a with
      | .error e => .error e
      | .ok b => (traverse f as).map (b :: ·)

def lowerConstraint (vars : List String) (c : Surface.Constraint) :
    Except CompileError TypeConstraint :=
  (lowerType vars c.bound).map fun bound => { name := c.name, bound }

/-! ## Parameters -/

/-- The parameters from a position on, without their defaults; `seen` are the names before. -/
def lowerParams (vars : List String) :
    (position : Nat) → (seen : List String) → List Surface.Param →
      Except CompileError (List ParamSpec)
  | _, _, [] => .ok []
  | position, seen, param :: rest =>
      if seen.contains param.name then
        .error ⟨.duplicateParameter param.name, param.span, none⟩
      else
        let descriptor := describe param.type
        match lowerType vars descriptor.type with
        | .error e => .error e
        | .ok type =>
            let spec : ParamSpec :=
              { name := param.name, slot := position, type, default := none
                mode := descriptor.mode, span := param.span }
            (lowerParams vars (position + 1) (param.name :: seen) rest).map (spec :: ·)

/-- The bindings of the parameters. -/
def paramBindings : (position : Nat) → List ParamSpec → Bindings
  | _, [] => []
  | position, param :: rest =>
      { name := param.name, kind := .param position } :: paramBindings (position + 1) rest

/-- Defaults see no parameter, which the error for an unbound name says. -/
def adviseDefault (e : CompileError) : CompileError :=
  match e.cause with
  | .unboundVariable _ => e.withHint "default values cannot refer to parameters"
  | _ => e

def lowerDefault (value : Surface.Expr) : Lower Core.Expr := fun bindings =>
  match lowerExpr [] value bindings with
  | .ok result => .ok result
  | .error e => .error (adviseDefault e)

/-- Gives each parameter the default of its annotation. -/
def lowerDefaults : List ParamSpec → List Surface.Param → Lower (List ParamSpec)
  | spec :: specs, param :: params => do
      let default ← match (describe param.type).default with
        | some value => do pure (some (← lowerDefault value))
        | none => pure none
      let rest ← lowerDefaults specs params
      return { spec with default } :: rest
  | _, _ => return []

/-! ## Bodies -/

/-- A body entry of the form of a clause. -/
structure ClauseShape where
  patterns : List Surface.Expr
  guard : Option Surface.Expr
  body : Surface.Expr
  span : Span

def clauseShape? : Surface.Stmt → Option ClauseShape
  | .expr (.clause span (.paren _ patterns) body) =>
      some { patterns, guard := none, body, span }
  | .expr (.clause span (.guarded _ (.paren _ patterns) guard) body) =>
      some { patterns, guard := some guard, body, span }
  | _ => none

/-- The clauses of a body that is made only of clauses. -/
def clauseShapes? (body : List Surface.Stmt) : Option (List ClauseShape) :=
  if body.isEmpty then none else body.mapM clauseShape?

/-- A clause, lowered in a scope of its own. -/
def lowerClause (shape : ClauseShape) : Lower ClauseSpec := do
  let (patterns, head) ← lowerPatterns shape.patterns { bindings := ← get, names := [] }
  set head.bindings
  let guard ← match shape.guard with
    | some guard => do pure (some (← lowerExpr head.names guard))
    | none => pure none
  let body ← lowerExpr head.names shape.body
  return { patterns, guard, body := [.expr body], span := shape.span }

def lowerClauses : List ClauseShape → Lower (List ClauseSpec)
  | [] => return []
  | shape :: shapes => do
      let clause ← lowerClause shape
      let clauses ← lowerClauses shapes
      return clause :: clauses

/-- The names of the parameters, as the body of a function sees them. -/
def paramNames (params : List ParamSpec) : Names :=
  (params.map fun param => (param.name, param.slot)).reverse

def lowerBody (params : List ParamSpec) (body : List Surface.Stmt) : Lower FunctionBody :=
  match clauseShapes? body with
  | some shapes => return .clauses (← lowerClauses shapes)
  | none => return .single (← lowerBlock (paramNames params) body)

/-- Lowers a function. -/
def lowerFunction (f : Surface.FunctionDef) : Except CompileError FunctionSpec := do
  let vars := f.constraints.map (·.name)
  let constraints ← traverse (lowerConstraint vars) f.constraints
  let params ← lowerParams vars 0 [] f.params
  let (params, bindings) ← lowerDefaults params f.params (paramBindings 0 params)
  let returnType ← match f.returnType with
    | some type => lowerType vars type
    | none => .ok .any
  let (body, bindings) ← lowerBody params f.body bindings
  return { name := f.name, params, returnType, constraints, body, bindings, span := f.span }

end Lowering
end Clausal
