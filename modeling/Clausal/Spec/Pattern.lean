import Clausal.Spec.Expr

/-!
# Lowering of clause heads

A name in a clause head binds at its first occurrence and asks for the same value at every later
one.  The names a head binds are the only ones its guard and body see.
-/

namespace Clausal
namespace Lowering

open Clausal.Core (Literal Pattern)

/-- What lowering a clause head keeps: the table of bindings and the names bound so far. -/
structure HeadState where
  bindings : Core.Bindings
  names : Names
  deriving Inhabited

abbrev LowerHead := StateT HeadState (Except CompileError)

/-- The literal that an expression is. -/
def literal? : Surface.Expr → Option Literal
  | .integer _ n => some (.int n)
  | .float _ x => some (.float x)
  | .text _ s => some (.text s)
  | .atom _ name => some (.atom name)
  | .bool _ b => some (.bool b)
  | .nil _ => some .nil
  | .unary _ .neg (.float _ x) => some (.float (-x))
  | _ => none

def invalidPattern (e : Surface.Expr) (what : String) : CompileError :=
  ⟨.invalidPattern what, e.span, none⟩

/-- A name in a clause head. -/
def lowerName (name : String) : LowerHead Pattern := do
  if isWildcard name then
    return .wildcard
  else
    let state ← get
    match state.names.lookup name with
    | some slot => return .same slot
    | none =>
        let slot := state.bindings.length
        set { bindings := state.bindings ++ [{ name, kind := .pattern }]
              names := (name, slot) :: state.names : HeadState }
        return .bind slot

/-- A form that must be a literal. -/
def lowerLiteral (e : Surface.Expr) : LowerHead Pattern :=
  match literal? e with
  | some value => return .literal value
  | none => throw (invalidPattern e e.describe)

mutual

def lowerPattern : Surface.Expr → LowerHead Pattern
  | .ident _ name => lowerName name
  | .paren _ [single] => lowerPattern single
  | .tuple _ items => return .tuple (← lowerPatterns items)
  | .list _ items => return .list (← lowerPatterns items)
  | .listTail _ items tail => do
      let items ← lowerPatterns items
      let tail ← lowerPattern tail
      return .listTail items tail
  | .map _ entries => return .map (← lowerPatternEntries entries)
  | e => lowerLiteral e

def lowerPatterns : List Surface.Expr → LowerHead (List Pattern)
  | [] => return []
  | e :: es => do
      let p ← lowerPattern e
      let ps ← lowerPatterns es
      return p :: ps

def lowerPatternEntries : List (Surface.Expr × Surface.Expr) → LowerHead (List (Literal × Pattern))
  | [] => return []
  | (k, v) :: rest => do
      match literal? k with
      | none => throw (invalidPattern k "map pattern keys must be literals")
      | some key =>
          let p ← lowerPattern v
          let rest ← lowerPatternEntries rest
          return (key, p) :: rest

end

end Lowering
end Clausal
