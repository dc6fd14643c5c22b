import Clausal.Operator
import Clausal.Value.Basic

/-!
# Core expressions

What a function body is lowered to.  Names are gone: a variable is the number of its slot in the
frame of the running call.  `unsafeCall?` finds the parts of an expression that could run other
code or fail by validation; a guard may have none.
-/

namespace Clausal
namespace Core

/-- A variable, by its place in the table of bindings. -/
abbrev Slot := Nat

inductive Literal where
  | int (value : Int)
  | float (value : Float)
  | text (value : String)
  | atom (name : String)
  | bool (value : Bool)
  | nil
  deriving Inhabited

def Literal.toValue : Literal → Value
  | int n => .int n
  | float x => .float x
  | text s => .text s
  | atom name => .atom name
  | bool b => .bool b
  | nil => .nil

/-! ## Builtin functions -/

inductive Builtin where
  | isInteger
  | isFloat
  | isNumber
  | isBoolean
  | isText
  | isBinary
  | isAtom
  | isNil
  | isList
  | isTuple
  | isMap
  | isFunction
  | isPid
  | isReference
  | length
  | abs
  | toText
  | min
  | max
  | hd
  | tl
  | elem
  | mapGet
  deriving DecidableEq, Repr, Inhabited

namespace Builtin

def all : List Builtin :=
  [isInteger, isFloat, isNumber, isBoolean, isText, isBinary, isAtom, isNil, isList, isTuple,
   isMap, isFunction, isPid, isReference, length, abs, toText, min, max, hd, tl, elem, mapGet]

def name : Builtin → String
  | isInteger => "is_integer"
  | isFloat => "is_float"
  | isNumber => "is_number"
  | isBoolean => "is_boolean"
  | isText => "is_text"
  | isBinary => "is_binary"
  | isAtom => "is_atom"
  | isNil => "is_nil"
  | isList => "is_list"
  | isTuple => "is_tuple"
  | isMap => "is_map"
  | isFunction => "is_function"
  | isPid => "is_pid"
  | isReference => "is_reference"
  | length => "length"
  | abs => "abs"
  | toText => "to_text"
  | min => "min"
  | max => "max"
  | hd => "hd"
  | tl => "tl"
  | elem => "elem"
  | mapGet => "map_get"

def ofName? (name : String) : Option Builtin := all.find? fun builtin => builtin.name == name

def arity : Builtin → Nat
  | min | max | elem | mapGet => 2
  | _ => 1

end Builtin

/-! ## Expressions, statements, patterns -/

inductive Callee where
  | builtin (builtin : Builtin)
  /-- A function of the caller's own module. -/
  | own (name : String)
  | remote (owner name : String)
  deriving DecidableEq, Repr, Inhabited

/-- The operations on the records of a struct. -/
inductive RecordOp where
  | new
  | validate
  | update
  deriving DecidableEq, Repr, Inhabited

def RecordOp.name : RecordOp → String
  | new => "record_new"
  | validate => "record_validate"
  | update => "record_update"

mutual

inductive Expr where
  | literal (value : Literal)
  | var (slot : Slot)
  | unary (op : UnaryOp) (operand : Expr)
  | binary (op : BinaryOp) (left right : Expr)
  | call (callee : Callee) (args : List Expr)
  | list (items : List Expr)
  | listTail (items : List Expr) (tail : Expr)
  | tuple (items : List Expr)
  | map (entries : List (Expr × Expr))
  | field (target : Expr) (name : String)
  | cond (condition : Expr) (thenBlock elseBlock : List Stmt)
  /-- An operation on the records of the named struct. -/
  | record (op : RecordOp) (struct : String) (args : List Expr)

inductive Stmt where
  | bind (slot : Slot) (value : Expr)
  /-- Replaces a variable by what the named value module makes of it. -/
  | validate (slot : Slot) (checker : String)
  | expr (value : Expr)

end

/-- Statements run in order; the value of a block is that of its last statement. -/
abbrev Block := List Stmt

instance : Inhabited Expr := ⟨.literal .nil⟩

inductive Pattern where
  | wildcard
  | bind (slot : Slot)
  /-- Matches what the variable already holds. -/
  | same (slot : Slot)
  | literal (value : Literal)
  | tuple (items : List Pattern)
  | list (items : List Pattern)
  | listTail (items : List Pattern) (tail : Pattern)
  | map (entries : List (Literal × Pattern))
  deriving Inhabited

/-! ## Calls that a guard may not make -/

mutual

/-- The first call of a function, record operation or validation in an expression, described. -/
def Expr.unsafeCall? : Expr → Option String
  | .literal _ => none
  | .var _ => none
  | .unary _ operand => operand.unsafeCall?
  | .binary _ left right => left.unsafeCall?.or right.unsafeCall?
  | .call (.builtin _) args => unsafeCallAmong? args
  | .call (.own name) _ => some ("call to " ++ name)
  | .call (.remote owner name) _ => some ("call to " ++ owner ++ "." ++ name)
  | .list items => unsafeCallAmong? items
  | .listTail items tail => (unsafeCallAmong? items).or tail.unsafeCall?
  | .tuple items => unsafeCallAmong? items
  | .map entries => unsafeCallInEntries? entries
  | .field target _ => target.unsafeCall?
  | .cond condition thenBlock elseBlock =>
      condition.unsafeCall?.or
        ((unsafeCallInBlock? thenBlock).or (unsafeCallInBlock? elseBlock))
  | .record op _ _ => some ("record operation " ++ op.name)

def unsafeCallAmong? : List Expr → Option String
  | [] => none
  | e :: es => e.unsafeCall?.or (unsafeCallAmong? es)

def unsafeCallInEntries? : List (Expr × Expr) → Option String
  | [] => none
  | (k, v) :: rest => k.unsafeCall?.or (v.unsafeCall?.or (unsafeCallInEntries? rest))

def unsafeCallInBlock? : List Stmt → Option String
  | [] => none
  | .bind _ value :: rest => value.unsafeCall?.or (unsafeCallInBlock? rest)
  | .validate _ checker :: _ => some ("validation through " ++ checker)
  | .expr value :: rest => value.unsafeCall?.or (unsafeCallInBlock? rest)

end

end Core
end Clausal
