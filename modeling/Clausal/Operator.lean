/-!
# Operators

The operators of expressions.  A `StrictOp` always evaluates both operands; the two logical
operators of `BinaryOp` decide after the first one whether the second is needed.
-/

namespace Clausal

inductive UnaryOp where
  | neg
  | not
  deriving DecidableEq, Repr, Inhabited

inductive StrictOp where
  | add
  | sub
  | mul
  | div
  | less
  | greater
  | lessEqual
  | greaterEqual
  | equal
  | notEqual
  | concat
  deriving DecidableEq, Repr, Inhabited

inductive BinaryOp where
  | strict (op : StrictOp)
  | and
  | or
  deriving DecidableEq, Repr, Inhabited

def StrictOp.symbol : StrictOp → String
  | add => "+"
  | sub => "-"
  | mul => "*"
  | div => "/"
  | less => "<"
  | greater => ">"
  | lessEqual => "<="
  | greaterEqual => ">="
  | equal => "=="
  | notEqual => "!="
  | concat => "<>"

def BinaryOp.symbol : BinaryOp → String
  | strict op => op.symbol
  | and => "and"
  | or => "or"

end Clausal
