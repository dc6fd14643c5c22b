/-!
# Binding strength of operators

Twelve levels, from the loosest to the tightest.  The infix operators take the levels from
`clause` to `times`; `unary` is the level of a signed or negated operand and `applied` that
of calls, indices and fields.
-/

namespace Clausal

inductive Precedence where
  | lowest
  | clause
  | when
  | default
  | or
  | and
  | comparison
  | concat
  | plus
  | times
  | unary
  | applied
  deriving DecidableEq, Repr, Inhabited

namespace Precedence

/-- The level as a number: a tighter level has a larger one. -/
def level : Precedence → Nat
  | lowest => 0
  | clause => 1
  | when => 2
  | default => 3
  | or => 4
  | and => 5
  | comparison => 6
  | concat => 7
  | plus => 8
  | times => 9
  | unary => 10
  | applied => 11

/-- The next tighter level; the tightest one is its own successor. -/
def tighter : Precedence → Precedence
  | lowest => clause
  | clause => when
  | when => default
  | default => or
  | or => and
  | and => comparison
  | comparison => concat
  | concat => plus
  | plus => times
  | times => unary
  | unary => applied
  | applied => applied

/-- No two levels have the same number. -/
theorem level_injective {p q : Precedence} (h : p.level = q.level) : p = q := by
  cases p <;> cases q <;> simp_all [level]

end Precedence

/-- On which side a chain of operators of one level groups. -/
inductive Associativity where
  | left
  | right
  deriving DecidableEq, Repr, Inhabited

/-- The loosest level that the right operand of an operator may have without parentheses. -/
def Associativity.rightOperand (assoc : Associativity) (p : Precedence) : Precedence :=
  match assoc with
  | .left => p.tighter
  | .right => p

end Clausal
