import Clausal.Proofs.Syntax.Everywhere
import Clausal.Proofs.Syntax.Names

/-!
# Trees that are read from texts

A tree that a text is read as has only names that can be written, numbers in range, and items before the
tail of a list (`Expr.Legible`).  The names come from the tokens (`Token.Named`): what is read has the names
of the tokens that it is made of.  The rest is part of what reading settles.

Main statement: `legible_of_parseExpression`.
-/

namespace Clausal
namespace Surface

open Token (IsName IsIdentifier)

/-! ## Legible trees -/

namespace Expr

/-- A node of a tree that a text can have: its name can be written, its number is in range, and a list
with a tail has items before it. -/
def Legible : Expr → Prop
  | integer _ n => n.natAbs ≤ Reader.maxInteger
  | atom _ name => IsName name.toList
  | ident _ name | field _ _ name => IsIdentifier name
  | listTail _ items _ => items ≠ []
  | _ => True

theorem Throughout.writable {e : Expr} (h : e.Throughout Legible) : e.Writable := by
  refine h.mono fun e legible => ?_
  cases e <;> first | exact legible | trivial

/-- What is grouped and has names that can be written is legible. -/
theorem Sound.legible {e : Expr} (sound : e.Sound) (writable : e.Writable) : e.Throughout Legible := by
  refine (Throughout.and sound writable).mono fun e ⟨grouped, named⟩ => ?_
  cases e with
  | integer => exact grouped rfl
  | listTail => exact grouped rfl
  | atom => exact named
  | ident => exact named
  | field => exact named
  | _ => trivial

end Expr

/-! ## Names in trees that are read -/

/-- The parts that a tree can be written with are parts of its node. -/
theorem Expr.mem_parts_node {e part : Expr} (member : part ∈ e.parts) :
    .expr part ∈ (Node.expr e).parts := by
  cases e with
  | cond => cases member
  | _ => exact List.mem_map_of_mem member

/-- What holds of every expression in a tree holds throughout.  The induction is on another property that
does. -/
theorem Expr.Throughout.of_everywhere {P Q : Expr → Prop} {e : Expr} (h : e.Throughout Q)
    (everywhere : (Node.expr e).Everywhere P) : e.Throughout P := by
  induction h with
  | node _ _ ih =>
      exact .node everywhere.root fun part member => ih part member (everywhere.part (mem_parts_node member))

open Reader in
/-- A leaf has the name of its token. -/
theorem named_of_leaf? {token : Token} {e : Expr} (named : token.Named) (h : leaf? token = some (.ok e)) :
    e.Named := by
  cases leafOf_of_leaf? h with
  | atom kind => simpa [Expr.Named] using named.2 kind
  | ident kind => exact named.1 kind
  | _ => trivial

/-- Reading makes names of the names of tokens. -/
theorem named_keptByReading : KeptByReading Token.Named Expr.Named where
  leaf named read := named_of_leaf? named read
  key kind named := (named.1 kind).1
  field _ _ _ kind named := named.1 kind
  sign span {e} h := by
    cases e <;> trivial
  form {e} leafless plain := by
    cases e with
    | atom => cases leafless
    | ident => cases leafless
    | field span target name => exact absurd rfl (plain span target name)
    | _ => trivial

/-- Whatever is read from a text is legible. -/
theorem legible_of_parseExpression {source : List Char} {e : Expr} (h : parseExpression source = .ok e) :
    e.Throughout Expr.Legible := by
  have sound := sound_of_parseExpression h
  have named := named_keptByReading.parseExpression (fun _ => Token.named_of_mem_scanFrom) h
  exact sound.legible (sound.of_everywhere named)

end Surface
end Clausal
