import Clausal.Surface.Expression
import Clausal.Value.Operator

/-!
# Constants

The value of an expression that is made of literals only: numbers with signs, texts, atoms, lists,
tuples and maps.
-/

namespace Clausal

/-- Why a text is no constant. -/
inductive ConstantError where
  | parse (error : ParseError)
  | overflow (value : Int)
  | cannotNegate (value : Value)
  | badTail (value : Value)
  | notConstant (what : String)
  deriving Inhabited

def ConstantError.message : ConstantError → String
  | parse e => e.message
  | overflow n => "integer overflow: -(" ++ toString n ++ ")"
  | cannotNegate v => "cannot negate " ++ v.render
  | badTail v => "list tail must be a list, got " ++ v.render
  | notConstant what => "not a constant: " ++ what

namespace Constant

/-- Changes the sign of a constant. -/
def negate : Value → Except ConstantError Value
  | .int n => if Value.inRange (-n) then .ok (.int (-n)) else .error (.overflow n)
  | .float x => .ok (.float (-x))
  | v => .error (.cannotNegate v)

/-- Joins the elements of a list and its tail. -/
def appendTail (items : List Value) : Value → Except ConstantError Value
  | .list rest => .ok (.list (items ++ rest))
  | v => .error (.badTail v)

mutual

/-- The value of a constant expression. -/
def ofExpr : Surface.Expr → Except ConstantError Value
  | .integer _ n => .ok (.int n)
  | .float _ x => .ok (.float x)
  | .text _ s => .ok (.text s)
  | .atom _ name => .ok (.atom name)
  | .bool _ b => .ok (.bool b)
  | .nil _ => .ok .nil
  | .unary _ .neg operand => do negate (← ofExpr operand)
  | .paren _ [single] => ofExpr single
  | .tuple _ items => do return .tuple (← ofExprs items)
  | .list _ items => do return .list (← ofExprs items)
  | .listTail _ items tail => do
      let items ← ofExprs items
      appendTail items (← ofExpr tail)
  | .map _ entries => do return .ofEntries (← ofEntries entries)
  | e => .error (.notConstant e.describe)

def ofExprs : List Surface.Expr → Except ConstantError (List Value)
  | [] => .ok []
  | e :: es => do
      let v ← ofExpr e
      let vs ← ofExprs es
      return v :: vs

def ofEntries : List (Surface.Expr × Surface.Expr) → Except ConstantError (List (Value × Value))
  | [] => .ok []
  | (k, v) :: rest => do
      let k ← ofExpr k
      let v ← ofExpr v
      let rest ← ofEntries rest
      return (k, v) :: rest

end

/-- The value that a text stands for. -/
def read (text : String) : Except ConstantError Value :=
  match Surface.parseExpression text.toList with
  | .error e => .error (.parse e)
  | .ok e => ofExpr e

end Constant
end Clausal
