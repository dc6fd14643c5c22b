import Clausal.Core.Expr
import Clausal.Value.Operator

/-!
# Builtin functions

Builtins need nothing but their arguments.
-/

namespace Clausal
namespace Machine

open Clausal.Core (Builtin)

/-- The fault of a builtin on a value it does not take. -/
def badArgument (builtin : Builtin) (value : Value) : Fault :=
  .typeError (builtin.name ++ ": bad argument " ++ value.shown)

/-- Number of elements, entries, characters or bytes. -/
def lengthOf? : Value → Option Nat
  | .list items => some items.length
  | .tuple items => some items.length
  | .map entries => some entries.length
  | .text s => some s.length
  | .binary bytes => some bytes.length
  | _ => none

def absolute : Value → Except Fault Value
  | .int n => Value.checked n.natAbs ("abs(" ++ toString n ++ ")")
  | .float x => .ok (.float x.abs)
  | v => .error (badArgument .abs v)

/-- The text of a value; texts and atoms are their own. -/
def toText : Value → Value
  | .text s => .text s
  | .atom name => .text name
  | v => .text v.render

/-- The first of two values if their order is one that `keep` allows, otherwise the second. -/
def choose (builtin : Builtin) (keep : Ordering → Bool) (x y : Value) : Except Fault Value :=
  match x.compare? y with
  | some order => .ok (if keep order then x else y)
  | none =>
      .error (.typeError (builtin.name ++ " cannot compare " ++ x.shown ++ " and " ++ y.shown))

def elementAt (x y : Value) : Except Fault Value :=
  match x, y with
  | .tuple items, .int index =>
      match (if 0 ≤ index then items[index.toNat]? else none) with
      | some item => .ok item
      | none =>
          .error (.typeError ("elem: index " ++ toString index ++ " out of range for a tuple of "
            ++ toString items.length))
  | x, _ => .error (badArgument .elem x)

/-- The value of a key in a map or of a field in a record, `nil` if there is none. -/
def lookUp (x key : Value) : Except Fault Value :=
  match x with
  | .map _ => .ok ((x.mapGet? key).getD .nil)
  | .record .. =>
      match key with
      | .atom field => .ok ((x.field? field).getD .nil)
      | _ => .ok .nil
  | x => .error (badArgument .mapGet x)

/-- A builtin of one argument. -/
def applyOne (builtin : Builtin) (x : Value) : Except Fault Value :=
  match builtin with
  | .isInteger => .ok (.bool x.isInteger)
  | .isFloat => .ok (.bool x.isFloat)
  | .isNumber => .ok (.bool (x.isInteger || x.isFloat))
  | .isBoolean => .ok (.bool x.isBoolean)
  | .isText => .ok (.bool x.isText)
  | .isBinary => .ok (.bool x.isBinary)
  | .isAtom => .ok (.bool x.isAtom)
  | .isNil => .ok (.bool x.isNil)
  | .isList => .ok (.bool x.isList)
  | .isTuple => .ok (.bool x.isTuple)
  | .isMap => .ok (.bool x.isMap)
  | .isFunction => .ok (.bool x.isFunction)
  | .isPid => .ok (.bool x.isPid)
  | .isReference => .ok (.bool x.isReference)
  | .length =>
      match lengthOf? x with
      | some n => .ok (.int n)
      | none => .error (badArgument builtin x)
  | .abs => absolute x
  | .toText => .ok (toText x)
  | .hd =>
      match x with
      | .list (first :: _) => .ok first
      | x => .error (badArgument builtin x)
  | .tl =>
      match x with
      | .list (_ :: rest) => .ok (.list rest)
      | x => .error (badArgument builtin x)
  | .min | .max | .elem | .mapGet => .error (badArgument builtin x)

/-- A builtin of two arguments. -/
def applyTwo (builtin : Builtin) (x y : Value) : Except Fault Value :=
  match builtin with
  | .min => choose builtin (· != .gt) x y
  | .max => choose builtin (· != .lt) x y
  | .elem => elementAt x y
  | .mapGet => lookUp x y
  | _ => .error (badArgument builtin x)

/-- Applies a builtin to as many arguments as it takes. -/
def applyBuiltin (builtin : Builtin) (args : List Value) : Except Fault Value :=
  if args.length ≠ builtin.arity then
    .error (.arity builtin.name (toString builtin.arity) args.length)
  else
    match args with
    | [x] => applyOne builtin x
    | [x, y] => applyTwo builtin x y
    | _ => .error (.arity builtin.name (toString builtin.arity) args.length)

end Machine
end Clausal
