import Clausal.Operator
import Clausal.Value.Fault

/-!
# Operators on values

Integers are added, subtracted and multiplied exactly or not at all; as soon as one operand is a
float the operation is done on doubles, and division always is.  The equality operator `looseEq`
is structural equality, except that an integer equals the float of the same number, also inside
lists, tuples, map values and record fields.
-/

namespace Clausal
namespace Value

/-! ## Comparison -/

/-- Order of texts by code points. -/
def compareText (a b : String) : Ordering :=
  if a < b then .lt else if a = b then .eq else .gt

/-- Order of doubles; "not a number" has no place in it. -/
def compareFloat? (a b : Float) : Option Ordering :=
  if a < b then some .lt
  else if a == b then some .eq
  else if b < a then some .gt
  else none

/-- The order of two values, if they are numbers, texts or atoms. -/
def compare? : Value → Value → Option Ordering
  | int a, int b => some (compare a b)
  | text a, text b => some (compareText a b)
  | atom a, atom b => some (compareText a b)
  | a, b =>
      match a.float?, b.float? with
      | some x, some y => compareFloat? x y
      | _, _ => none

mutual

/-- The equality of the `==` operator. -/
def looseEq : Value → Value → Bool
  | int a, float b => Float.ofInt a == b
  | float a, int b => Float.ofInt b == a
  | list a, list b => looseEqItems a b
  | tuple a, tuple b => looseEqItems a b
  | map a, map b => a.length == b.length && looseEntriesAmong a b
  | record t a, record t' b => t == t' && looseEqFields a b
  | a, b => same a b

def looseEqItems : List Value → List Value → Bool
  | [], [] => true
  | a :: as, b :: bs => looseEq a b && looseEqItems as bs
  | _, _ => false

/-- Every entry has one with the same key and an equal value among `others`. -/
def looseEntriesAmong : List (Value × Value) → List (Value × Value) → Bool
  | [], _ => true
  | (k, v) :: rest, others =>
      others.any (fun other => same k other.1 && looseEq v other.2)
        && looseEntriesAmong rest others

def looseEqFields : List (String × Value) → List (String × Value) → Bool
  | [], [] => true
  | (n, a) :: as, (n', b) :: bs => n == n' && looseEq a b && looseEqFields as bs
  | _, _ => false

end

/-! ## Application -/

/-- The fault of an operator on values it does not take. -/
def badOperands (op : StrictOp) (a b : Value) : Fault :=
  .typeError ("bad operands for " ++ op.symbol ++ ": " ++ a.shown ++ " and " ++ b.shown)

/-- An integer in the range of 64 bits, or the overflow of `operation`. -/
def checked (n : Int) (operation : String) : Except Fault Value :=
  if inRange n then .ok (int n) else .error (.overflow operation)

/-- An arithmetic operator, exact on integers and rounded on floats. -/
def arithmetic (op : StrictOp) (onInts : Int → Int → Int) (onFloats : Float → Float → Float) :
    Value → Value → Except Fault Value
  | int a, int b => checked (onInts a b) (toString a ++ " " ++ op.symbol ++ " " ++ toString b)
  | a, b =>
      match a.float?, b.float? with
      | some x, some y => .ok (float (onFloats x y))
      | _, _ => .error (badOperands op a b)

/-- Division, always of floats. -/
def divide (a b : Value) : Except Fault Value :=
  match a.float?, b.float? with
  | some x, some y => if y == 0.0 then .error .divisionByZero else .ok (float (x / y))
  | _, _ => .error (badOperands .div a b)

/-- Joins two texts or two binaries. -/
def join : Value → Value → Except Fault Value
  | text a, text b => .ok (text (a ++ b))
  | binary a, binary b => .ok (binary (a ++ b))
  | a, b => .error (badOperands .concat a b)

/-- An ordering operator. -/
def ordered (op : StrictOp) (test : Ordering → Bool) (a b : Value) : Except Fault Value :=
  match compare? a b with
  | some order => .ok (bool (test order))
  | none => .error (badOperands op a b)

/-- Applies an operator to two values. -/
def apply (op : StrictOp) (a b : Value) : Except Fault Value :=
  match op with
  | .add => arithmetic op (· + ·) (· + ·) a b
  | .sub => arithmetic op (· - ·) (· - ·) a b
  | .mul => arithmetic op (· * ·) (· * ·) a b
  | .div => divide a b
  | .equal => .ok (bool (looseEq a b))
  | .notEqual => .ok (bool (!looseEq a b))
  | .less => ordered op Ordering.isLT a b
  | .greater => ordered op Ordering.isGT a b
  | .lessEqual => ordered op Ordering.isLE a b
  | .greaterEqual => ordered op Ordering.isGE a b
  | .concat => join a b

/-- Changes the sign of a number. -/
def negate : Value → Except Fault Value
  | int n => checked (-n) ("-(" ++ toString n ++ ")")
  | float x => .ok (float (-x))
  | v => .error (.typeError ("cannot negate " ++ v.shown))

/-- Negates a truth value. -/
def complement : Value → Except Fault Value
  | bool b => .ok (bool (!b))
  | v => .error (.typeError ("not expects a boolean, got " ++ v.shown))

def applyUnary : UnaryOp → Value → Except Fault Value
  | .neg => negate
  | .not => complement

end Value
end Clausal
