/-!
# Types

The types a signature can name: base types, value modules, the module's own type, and type
variables bounded by `where` constraints.  Variables are resolved by following their bounds.
-/

namespace Clausal

inductive BaseType where
  | integer
  | float
  | boolean
  | text
  | binary
  | list
  | tuple
  | map
  | function
  | pid
  | reference
  | any
  deriving DecidableEq, Repr, Inhabited

namespace BaseType

def all : List BaseType :=
  [integer, float, boolean, text, binary, list, tuple, map, function, pid, reference, any]

def name : BaseType → String
  | integer => "integer"
  | float => "float"
  | boolean => "boolean"
  | text => "text"
  | binary => "binary"
  | list => "list"
  | tuple => "tuple"
  | map => "map"
  | function => "function"
  | pid => "pid"
  | reference => "reference"
  | any => "any"

def ofName? (name : String) : Option BaseType := all.find? fun base => base.name == name

/-- The names of all base types, for messages. -/
def allNames : String := ", ".intercalate (all.map name)

end BaseType

inductive TypeExpr where
  | base (type : BaseType)
  /-- A value module. -/
  | external (name : String)
  /-- The type of the module that holds the signature. -/
  | selfType
  | var (name : String)
  deriving DecidableEq, Repr, Inhabited

/-- `name: bound` -/
structure TypeConstraint where
  name : String
  bound : TypeExpr
  deriving DecidableEq, Repr, Inhabited

namespace TypeExpr

def any : TypeExpr := base .any

def render : TypeExpr → String
  | base type => type.name
  | external name => name
  | selfType => "self"
  | var name => name

/-- The bound of a variable; the first constraint of its name counts. -/
def boundOf? (constraints : List TypeConstraint) (name : String) : Option TypeExpr :=
  (constraints.find? fun c => c.name == name).map (·.bound)

/-- Follows the bounds of variables, looking at no more than `limit` types. -/
def resolveWithin (constraints : List TypeConstraint) : (limit : Nat) → TypeExpr → Option TypeExpr
  | 0, _ => none
  | limit + 1, var name =>
      match boundOf? constraints name with
      | some bound => resolveWithin constraints limit bound
      | none => none
  | _ + 1, type => some type

/-- The type that is no variable and that following the bounds leads to, if there is one. -/
def resolve? (type : TypeExpr) (constraints : List TypeConstraint) : Option TypeExpr :=
  resolveWithin constraints (constraints.length + 1) type

/-- What a type resolves to is no variable. -/
theorem resolveWithin_ne_var {constraints : List TypeConstraint} {limit : Nat}
    {type found : TypeExpr} (h : resolveWithin constraints limit type = some found)
    (name : String) : found ≠ var name := by
  induction limit generalizing type with
  | zero => simp [resolveWithin] at h
  | succ limit ih =>
      cases type with
      | var v =>
          simp only [resolveWithin] at h
          split at h
          · exact ih h
          · contradiction
      | base b => simp [resolveWithin] at h; simp [← h]
      | external n => simp [resolveWithin] at h; simp [← h]
      | selfType => simp [resolveWithin] at h; simp [← h]

end TypeExpr

def TypeConstraint.render (c : TypeConstraint) : String := c.name ++ ": " ++ c.bound.render

end Clausal
