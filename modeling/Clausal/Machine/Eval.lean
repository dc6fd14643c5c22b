import Clausal.Machine.Frame
import Clausal.Machine.Builtin
import Clausal.Machine.Record

/-!
# Evaluation

Expressions and blocks are evaluated by recursion on their form.  A call of another function is
left to the `Host` that evaluation runs in, so evaluation itself ends on every expression.

Evaluation runs in any monad with faults.  In `Except Fault` it is a plain function; a host that
keeps a record of the calls runs the same code in a larger monad.
-/

namespace Clausal
namespace Machine

open Clausal.Core (Slot Bindings)

/-- What the code of one call can reach. -/
structure Host (m : Type → Type) where
  /-- The module the code belongs to. -/
  owner : String
  /-- The variables of its function, for messages. -/
  bindings : Bindings
  registry : Registry
  schemas : List (String × RecordSchema)
  /-- Calls a function of a module. -/
  call : (owner name : String) → List Value → m Value

variable {m : Type → Type} [Monad m] [MonadExceptOf Fault m]

/-- The value of a result, or its fault. -/
def settle {α : Type} : Except Fault α → m α
  | .ok a => pure a
  | .error fault => throw fault

/-- The value of a field of a record, or of the key of its name in a map. -/
def fieldOf (target : Value) (name : String) : Except Fault Value :=
  let found := match target with
    | .record .. => target.field? name
    | .map _ => target.mapGet? (.atom name)
    | _ => none
  match found with
  | some value => .ok value
  | none => .error (.missingField name target.typeName)

/-- The elements of a list tail. -/
def tailItems : Value → Except Fault (List Value)
  | .list items => .ok items
  | v => .error (.typeError ("list tail must be a list, got " ++ v.shown))

/-- The branch a condition takes. -/
def branchOf : Value → Except Fault Bool
  | .bool b => .ok b
  | v => .error (.typeError ("if condition must be a boolean, got " ++ v.shown))

/-- An operand of a logical operator. -/
def truthOf (op : BinaryOp) : Value → Except Fault Bool
  | .bool b => .ok b
  | v => .error (.typeError (op.symbol ++ " expects booleans, got " ++ v.shown))

def unboundSlot (bindings : Bindings) (slot : Slot) : Fault :=
  .typeError (bindings.nameOf slot ++ " is not bound")

/-- The value of a variable. -/
def readSlot (host : Host m) (slot : Slot) : StateT Frame m Value := do
  match (← get).get? slot with
  | some value => return value
  | none => throw (unboundSlot host.bindings slot)

/-- Replaces a variable by what a value module makes of it. -/
def validateSlot (host : Host m) (slot : Slot) (checker : String) : StateT Frame m Value := do
  match host.registry.get? checker with
  | none => throw (Fault.unknownModule checker)
  | some valueModule =>
      let raw := ((← get).get? slot).getD .nil
      match valueModule.validate raw with
      | .ok value =>
          modify (Frame.set · slot value)
          return value
      | .error diagnostic =>
          throw (Fault.validation (host.bindings.nameOf slot) raw diagnostic)

/-- A record operation on the struct of a name. -/
def runRecordOp (host : Host m) (op : Core.RecordOp) (struct : String) (args : List Value) :
    StateT Frame m Value :=
  match host.schemas.lookup struct with
  | some schema => settle (applyRecordOp schema struct op args)
  | none => throw (Fault.unknownModule struct)

/-- Calls what a callee refers to. -/
def runCall (host : Host m) (callee : Core.Callee) (args : List Value) : StateT Frame m Value :=
  match callee with
  | .builtin builtin => settle (applyBuiltin builtin args)
  | .own name => StateT.lift (host.call host.owner name args)
  | .remote owner name => StateT.lift (host.call owner name args)

mutual

/-- Evaluates an expression in a frame. -/
def evalExpr (host : Host m) : Core.Expr → StateT Frame m Value
  | .literal value => return value.toValue
  | .var slot => readSlot host slot
  | .unary op operand => do
      let value ← evalExpr host operand
      settle (value.applyUnary op)
  | .binary (.strict op) left right => do
      let a ← evalExpr host left
      let b ← evalExpr host right
      settle (a.apply op b)
  | .binary .and left right => do
      let a ← settle (truthOf .and (← evalExpr host left))
      if a then
        let b ← settle (truthOf .and (← evalExpr host right))
        return .bool b
      else
        return .bool false
  | .binary .or left right => do
      let a ← settle (truthOf .or (← evalExpr host left))
      if a then
        return .bool true
      else
        let b ← settle (truthOf .or (← evalExpr host right))
        return .bool b
  | .call callee args => do
      let args ← evalExprs host args
      runCall host callee args
  | .list items => return .list (← evalExprs host items)
  | .listTail items tail => do
      let items ← evalExprs host items
      let rest ← settle (tailItems (← evalExpr host tail))
      return .list (items ++ rest)
  | .tuple items => return .tuple (← evalExprs host items)
  | .map entries => return .ofEntries (← evalEntries host entries)
  | .field target name => do
      let target ← evalExpr host target
      settle (fieldOf target name)
  | .cond condition thenBlock elseBlock => do
      let branch ← settle (branchOf (← evalExpr host condition))
      if branch then evalBlock host .nil thenBlock else evalBlock host .nil elseBlock
  | .record op struct args => do
      let args ← evalExprs host args
      runRecordOp host op struct args

def evalExprs (host : Host m) : List Core.Expr → StateT Frame m (List Value)
  | [] => return []
  | e :: es => do
      let v ← evalExpr host e
      let vs ← evalExprs host es
      return v :: vs

def evalEntries (host : Host m) : List (Core.Expr × Core.Expr) → StateT Frame m (List (Value × Value))
  | [] => return []
  | (k, v) :: rest => do
      let k ← evalExpr host k
      let v ← evalExpr host v
      let rest ← evalEntries host rest
      return (k, v) :: rest

/-- Runs statements in order; `last` is the value of the one before. -/
def evalBlock (host : Host m) : (last : Value) → List Core.Stmt → StateT Frame m Value
  | last, [] => return last
  | _, .bind slot value :: rest => do
      let value ← evalExpr host value
      modify (Frame.set · slot value)
      evalBlock host value rest
  | _, .validate slot checker :: rest => do
      let value ← validateSlot host slot checker
      evalBlock host value rest
  | _, .expr value :: rest => do
      let value ← evalExpr host value
      evalBlock host value rest

end

/-- Whether a guard holds; a guard that fails does not. -/
def evalGuard (host : Host m) (guard : Core.Expr) : StateT Frame m Bool :=
  tryCatch
    (do
      match ← evalExpr host guard with
      | .bool true => return true
      | _ => return false)
    fun (_ : Fault) => return false

end Machine
end Clausal
