import Clausal.Spec.Basic
import Clausal.Spec.Error
import Clausal.Spec.Expr

/-!
# Parameter descriptions and types

The annotation of a parameter holds up to three things: a default after `\\`, a `guard[..]` or
`validate[..]` request, and the type itself.
-/

namespace Clausal
namespace Lowering

/-- The parts of a parameter's annotation. -/
structure Descriptor where
  type : Surface.Expr
  default : Option Surface.Expr
  mode : ParamMode

def splitDefault : Surface.Expr → Surface.Expr × Option Surface.Expr
  | .defaulted _ inner value => (inner, some value)
  | e => (e, none)

def splitMode (e : Surface.Expr) : Surface.Expr × ParamMode :=
  match e with
  | .index _ (.ident _ "guard") [inner] => (inner, .guard)
  | .index _ (.ident _ "validate") [inner] => (inner, .validate)
  | e => (e, .none)

/-- Takes an annotation apart. -/
def describe (written : Surface.Expr) : Descriptor :=
  let (inner, default) := splitDefault written
  let (type, mode) := splitMode inner
  { type, default, mode }

/-- The type that a bare name stands for, if it is not that of a module. -/
def namedType? (vars : List String) (name : String) : Option TypeExpr :=
  if vars.contains name then some (.var name)
  else if name == "self" then some .selfType
  else (BaseType.ofName? name).map .base

/-- The type an expression names: a variable, `self`, a base type, or a value module by its path. -/
def lowerType (vars : List String) (e : Surface.Expr) : Except CompileError TypeExpr :=
  match e.ident?.bind (namedType? vars) with
  | some type => .ok type
  | none =>
      match e.path? with
      | some path =>
          if startsUpper path then .ok (.external path)
          else
            .error (CompileError.withHint ⟨.invalidType ("unknown type " ++ path), e.span, none⟩
              ("expected one of " ++ BaseType.allNames ++ ", self, or a module name"))
      | none => .error ⟨.invalidType e.describe, e.span, none⟩

end Lowering
end Clausal
