import Clausal.Core.Program
import Clausal.Source.Span

/-!
# Specifications

What the items of a source file are lowered to: functions whose bodies are core expressions but
whose guards and validations are still requests on their parameters, and structs as lists of
fields.
-/

namespace Clausal

open Clausal.Core (Slot Expr Block Pattern Bindings)

/-- What a parameter asks to be done with its argument. -/
inductive ParamMode where
  | none
  | guard
  | validate
  deriving DecidableEq, Repr, Inhabited

structure ParamSpec where
  name : String
  slot : Slot
  type : TypeExpr
  default : Option Expr
  mode : ParamMode
  span : Span
  deriving Inhabited

structure ClauseSpec where
  patterns : List Pattern
  guard : Option Expr
  body : Block
  span : Span
  deriving Inhabited

inductive FunctionBody where
  | single (body : Block)
  | clauses (clauses : List ClauseSpec)
  deriving Inhabited

structure FunctionSpec where
  name : String
  params : List ParamSpec
  returnType : TypeExpr
  constraints : List TypeConstraint
  body : FunctionBody
  bindings : Bindings
  span : Span
  deriving Inhabited

def FunctionSpec.arity (f : FunctionSpec) : Nat := f.params.length

/-- A field of a struct and the value module that checks it. -/
structure SchemaField where
  name : String
  checker : String
  span : Span
  deriving DecidableEq, Repr, Inhabited

structure StructSchema where
  fields : List SchemaField
  span : Span
  deriving DecidableEq, Repr, Inhabited

structure ModuleSpec where
  name : String
  functions : List FunctionSpec
  schema : Option StructSchema
  span : Span
  deriving Inhabited

end Clausal
