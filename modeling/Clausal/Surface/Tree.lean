import Clausal.Source.Span
import Clausal.Operator

/-!
# Surface trees

The tree a source text is read into.  It is deliberately uniform: the type of a parameter, the
head of a clause and an ordinary expression are all `Surface.Expr`.  What a shape means, a guard
request or a clause list or a default value, is decided when the tree is lowered.
-/

namespace Clausal
namespace Surface

mutual

/-- An expression; every form carries the span it was read from. -/
inductive Expr where
  | integer (span : Span) (value : Int)
  | float (span : Span) (value : Float)
  | text (span : Span) (value : String)
  | atom (span : Span) (name : String)
  | bool (span : Span) (value : Bool)
  | nil (span : Span)
  | ident (span : Span) (name : String)
  | unary (span : Span) (op : UnaryOp) (operand : Expr)
  | binary (span : Span) (op : BinaryOp) (left right : Expr)
  /-- `head -> body` -/
  | clause (span : Span) (head body : Expr)
  /-- `subject when guard` -/
  | guarded (span : Span) (subject guard : Expr)
  /-- `inner \\ value` -/
  | defaulted (span : Span) (inner value : Expr)
  | call (span : Span) (callee : Expr) (args : List Expr)
  /-- `target[args]` -/
  | index (span : Span) (target : Expr) (args : List Expr)
  | field (span : Span) (target : Expr) (name : String)
  /-- `(a, b)`; one element is plain grouping -/
  | paren (span : Span) (items : List Expr)
  | list (span : Span) (items : List Expr)
  /-- `[a, b | tail]` -/
  | listTail (span : Span) (items : List Expr) (tail : Expr)
  | tuple (span : Span) (items : List Expr)
  | map (span : Span) (entries : List (Expr × Expr))
  | cond (span : Span) (condition : Expr) (thenBlock elseBlock : List Stmt)

/-- An entry of a block. -/
inductive Stmt where
  | bind (span : Span) (name : String) (value : Expr)
  | expr (value : Expr)

end

instance : Inhabited Expr := ⟨.nil .synthetic⟩

namespace Expr

def span : Expr → Span
  | integer s _ | float s _ | text s _ | atom s _ | bool s _ | nil s | ident s _
  | unary s _ _ | binary s _ _ _ | clause s _ _ | guarded s _ _ | defaulted s _ _
  | call s _ _ | index s _ _ | field s _ _ | paren s _ | list s _ | listTail s _ _
  | tuple s _ | map s _ | cond s _ _ _ => s

/-- The name, when the expression is a bare identifier. -/
def ident? : Expr → Option String
  | ident _ name => some name
  | _ => none

/-- The dotted path `A.B.c`, when the expression is a chain of fields on an identifier. -/
def path? : Expr → Option String
  | ident _ name => some name
  | field _ target name => target.path?.map fun base => base ++ "." ++ name
  | _ => none

/-- The identifier at the bottom of a dotted path. -/
def pathRoot? : Expr → Option String
  | ident _ name => some name
  | field _ target _ => target.pathRoot?
  | _ => none

/-- How messages name the form of an expression. -/
def describe : Expr → String
  | integer .. => "integer literal"
  | float .. => "float literal"
  | text .. => "text literal"
  | atom .. => "atom literal"
  | bool .. => "boolean literal"
  | nil .. => "nil"
  | ident .. => "identifier"
  | unary .. => "unary expression"
  | binary .. => "binary expression"
  | clause .. => "clause"
  | guarded .. => "`when` expression"
  | defaulted .. => "default value"
  | call .. => "call"
  | index .. => "index expression"
  | field .. => "field access"
  | paren .. => "parenthesized list"
  | list .. => "list"
  | listTail .. => "list"
  | tuple .. => "tuple"
  | map .. => "map"
  | cond .. => "if expression"

end Expr

/-- `name: type`, where the type may carry a default and a `guard[..]` or `validate[..]` request. -/
structure Param where
  name : String
  type : Expr
  span : Span

/-- `T: bound` in a `where` list. -/
structure Constraint where
  name : String
  bound : Expr
  span : Span

/-- `def name(params) -> returnType where constraints { body }` -/
structure FunctionDef where
  name : String
  params : List Param
  returnType : Option Expr
  constraints : List Constraint
  body : List Stmt
  span : Span

structure FieldDef where
  name : String
  type : Expr
  span : Span

/-- `struct { field: Module, ... }` -/
structure StructDef where
  fields : List FieldDef
  span : Span

/-- What may stand in a module. -/
inductive Member where
  | function (definition : FunctionDef)
  | struct (definition : StructDef)

def Member.span : Member → Span
  | function f => f.span
  | struct s => s.span

/-- `module Name { members }`; a dotted name is kept whole. -/
structure ModuleDef where
  name : String
  members : List Member
  span : Span

inductive Item where
  | block (definition : ModuleDef)
  | member (member : Member)

structure SourceFile where
  items : List Item
  span : Span

end Surface
end Clausal
