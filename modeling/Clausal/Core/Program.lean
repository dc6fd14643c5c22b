import Clausal.Core.Expr
import Clausal.Types

/-!
# Programs

A program is a list of modules.  A module has functions and may have a struct, and every function
has a signature, parameters with defaults, and one or more implementations that are tried in
order.
-/

namespace Clausal
namespace Core

/-! ## Bindings -/

/-- Where a variable comes from. -/
inductive BindingKind where
  | param (position : Nat)
  | pattern
  | bound
  deriving DecidableEq, Repr, Inhabited

structure Binding where
  name : String
  kind : BindingKind
  deriving DecidableEq, Repr, Inhabited

/-- The variables of a function; a slot is a place in this list. -/
abbrev Bindings := List Binding

/-- The name of a variable; a slot outside the table has none. -/
def Bindings.nameOf (bindings : Bindings) (slot : Slot) : String :=
  match bindings[slot]? with
  | some binding => binding.name
  | none => "_"

/-! ## Functions -/

structure Signature where
  name : String
  params : List TypeExpr
  returnType : TypeExpr
  constraints : List TypeConstraint
  deriving Inhabited

structure ForwardParam where
  name : String
  slot : Slot
  default : Option Expr
  deriving Inhabited

/-- What a call of a function needs to know: its parameters and their defaults. -/
structure Forward where
  name : String
  params : List ForwardParam
  deriving Inhabited

namespace Forward

def arity (f : Forward) : Nat := f.params.length

/-- Number of parameters without a default. -/
def required (f : Forward) : Nat := (f.params.filter fun p => p.default.isNone).length

def accepts (f : Forward) (count : Nat) : Bool := f.required ≤ count && count ≤ f.arity

/-- The required parameters are among the parameters. -/
theorem required_le_arity (f : Forward) : f.required ≤ f.arity := List.length_filter_le _ _

/-- A call may leave out only arguments with a default. -/
theorem accepts_iff {f : Forward} {count : Nat} :
    f.accepts count = true ↔ f.required ≤ count ∧ count ≤ f.arity := by
  simp [accepts]

end Forward

/-- A body with the patterns and the guard that let a call in. -/
structure Implementation where
  patterns : List Pattern
  guard : Option Expr
  body : Block
  deriving Inhabited

structure Declaration where
  name : String
  signature : Signature
  forward : Forward
  implementations : List Implementation
  bindings : Bindings
  deriving Inhabited

def Declaration.arity (d : Declaration) : Nat := d.forward.arity

/-! ## Modules -/

/-- A field of a struct and the value module that checks it. -/
structure RecordField where
  name : String
  checker : String
  deriving DecidableEq, Repr, Inhabited

structure RecordDef where
  name : String
  fields : List RecordField
  deriving DecidableEq, Repr, Inhabited

structure ProgramModule where
  name : String
  functions : List Declaration
  record : Option RecordDef
  deriving Inhabited

structure Program where
  modules : List ProgramModule
  deriving Inhabited

namespace Program

def module? (p : Program) (name : String) : Option ProgramModule :=
  p.modules.find? fun m => m.name == name

def function? (p : Program) (owner name : String) : Option Declaration :=
  (p.module? owner).bind fun m => m.functions.find? fun f => f.name == name

def records (p : Program) : List RecordDef := p.modules.filterMap (·.record)

end Program

end Core
end Clausal
