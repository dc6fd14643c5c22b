import Clausal.Spec.Error
import Clausal.Core.Program
import Clausal.Surface.Tree

/-!
# Lowering of expressions

Names become slots.  The names in scope are a list in which the latest comes first, so a binding
hides an earlier one of its name to the end of its block, and a block's own bindings are gone
after it.  The table of bindings only grows: every binding has a slot of its own.
-/

namespace Clausal
namespace Lowering

open Clausal.Core (Slot Bindings BindingKind Builtin Callee)

/-- The visible variables, the latest first. -/
abbrev Names := List (String × Slot)

/-- A lowering step: it may add bindings to the table of the function. -/
abbrev Lower := StateT Bindings (Except CompileError)

/-- Adds a binding and gives its slot. -/
def declare (name : String) (kind : BindingKind) : Lower Slot := do
  let bindings ← get
  set (bindings ++ [⟨name, kind⟩])
  return bindings.length

/-- Names with this first letter match anything and never bind. -/
def isWildcard (name : String) : Bool := name.toList.head? == some '_'

def startsUpper (name : String) : Bool :=
  match name.toList with
  | c :: _ => 'A' ≤ c && c ≤ 'Z'
  | [] => false

/-- Whether an expression is a dotted path that begins with the name of a module and not with a
variable. -/
def isModulePath (names : Names) (e : Surface.Expr) : Bool :=
  match e.pathRoot? with
  | some root => (names.lookup root).isNone && startsUpper root
  | none => false

/-- What a call refers to.  A builtin hides a function of its name. -/
def lowerCallee (names : Names) (callee : Surface.Expr) : Except CompileError Callee :=
  match callee with
  | .ident span name =>
      match names.lookup name with
      | some _ => .error (.unsupported ("calling the variable " ++ name) span)
      | none =>
          match Builtin.ofName? name with
          | some builtin => .ok (.builtin builtin)
          | none => .ok (.own name)
  | .field span target name =>
      if isModulePath names target then .ok (.remote (target.path?.getD "") name)
      else .error (.unsupported ("call through a " ++ callee.describe) span)
  | _ => .error (.unsupported ("call through a " ++ callee.describe) callee.span)

/-- The error of a name that is not in scope. -/
def unboundName (name : String) (span : Span) : CompileError :=
  if isWildcard name then
    (CompileError.unbound name span).withHint "names starting with _ only match, they never bind"
  else
    .unbound name span

/-- The value of an empty block is `nil`. -/
def orNil : Core.Block → Core.Block
  | [] => [.expr (.literal .nil)]
  | block => block

mutual

/-- Lowers an expression in a scope. -/
def lowerExpr : Names → Surface.Expr → Lower Core.Expr
  | _, .integer _ n => return .literal (.int n)
  | _, .float _ x => return .literal (.float x)
  | _, .text _ s => return .literal (.text s)
  | _, .atom _ name => return .literal (.atom name)
  | _, .bool _ b => return .literal (.bool b)
  | _, .nil _ => return .literal .nil
  | names, .ident span name =>
      match names.lookup name with
      | some slot => return .var slot
      | none => throw (unboundName name span)
  | names, .unary _ op operand => return .unary op (← lowerExpr names operand)
  | names, .binary _ op left right => do
      let left ← lowerExpr names left
      let right ← lowerExpr names right
      return .binary op left right
  | names, .call _ callee args => do
      let callee ← lowerCallee names callee
      let args ← lowerExprs names args
      return .call callee args
  | names, .field span target name => do
      if isModulePath names target then
        throw ((CompileError.unsupported "module reference as a value" span).withHint
          ("call it instead, e.g. " ++ name ++ "()"))
      else
        return .field (← lowerExpr names target) name
  | names, .paren _ [single] => lowerExpr names single
  | _, .paren span items =>
      throw ((CompileError.unsupported (Surface.Expr.paren span items).describe span).withHint
        "use \x7ba, b\x7d for a tuple")
  | names, .list _ items => return .list (← lowerExprs names items)
  | names, .listTail _ items tail => do
      let items ← lowerExprs names items
      let tail ← lowerExpr names tail
      return .listTail items tail
  | names, .tuple _ items => return .tuple (← lowerExprs names items)
  | names, .map _ entries => return .map (← lowerEntries names entries)
  | names, .cond _ condition thenBlock elseBlock => do
      let condition ← lowerExpr names condition
      let thenBlock ← lowerStmts names thenBlock
      let elseBlock ← lowerStmts names elseBlock
      return .cond condition (orNil thenBlock) (orNil elseBlock)
  | _, .clause span head body =>
      throw ((CompileError.unsupported (Surface.Expr.clause span head body).describe span).withHint
        "a body is either one block or a list made only of clauses")
  | _, .guarded span subject guard =>
      throw ((CompileError.unsupported
        (Surface.Expr.guarded span subject guard).describe span).withHint
        "`when` only follows a clause head")
  | _, .defaulted span inner value =>
      throw ((CompileError.unsupported
        (Surface.Expr.defaulted span inner value).describe span).withHint
        "defaults belong in parameter types")
  | _, .index span target args =>
      throw ((CompileError.unsupported
        (Surface.Expr.index span target args).describe span).withHint
        "guard[...] and validate[...] belong in parameter types")

def lowerExprs : Names → List Surface.Expr → Lower (List Core.Expr)
  | _, [] => return []
  | names, e :: es => do
      let e ← lowerExpr names e
      let es ← lowerExprs names es
      return e :: es

def lowerEntries : Names → List (Surface.Expr × Surface.Expr) → Lower (List (Core.Expr × Core.Expr))
  | _, [] => return []
  | names, (k, v) :: rest => do
      let k ← lowerExpr names k
      let v ← lowerExpr names v
      let rest ← lowerEntries names rest
      return (k, v) :: rest

/-- Lowers the statements of a block.  A binding is visible from the next statement on. -/
def lowerStmts : Names → List Surface.Stmt → Lower Core.Block
  | _, [] => return []
  | names, .bind span name value :: rest => do
      let value ← lowerExpr names value
      if isWildcard name then
        throw ((CompileError.unsupported ("let " ++ name) span).withHint
          "let needs a binding name")
      else
        let slot ← declare name .bound
        let rest ← lowerStmts ((name, slot) :: names) rest
        return .bind slot value :: rest
  | names, .expr value :: rest => do
      let value ← lowerExpr names value
      let rest ← lowerStmts names rest
      return .expr value :: rest

end

/-- Lowers a block in a scope. -/
def lowerBlock (names : Names) (stmts : List Surface.Stmt) : Lower Core.Block :=
  return orNil (← lowerStmts names stmts)

end Lowering
end Clausal
