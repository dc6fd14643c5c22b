import Clausal.Proofs.Arithmetic
import Clausal.Proofs.Lowering.Literals

/-!
# Negating an integer that was read

The integers of 64 bits are not symmetric: the least of them has no opposite.  The integers in a tree that
is read are (`Expr.HasOpposite`): digits without a sign make at most 2⁶³ - 1, and a sign in front, which is
folded into the number, keeps the distance to zero, however many there are.

* `checkedExpressionAt_eq`: a reader that stops where a folded sign would leave the range never stops there.
* `integers_have_opposites`: the bound holds in every tree that is read, and so each integer literal that
  lowering makes of it can be negated.
-/

namespace Clausal
namespace Surface

/-- An integer no farther from zero than the largest of 64 bits. -/
def Expr.HasOpposite : Expr → Prop
  | integer _ n => n.natAbs ≤ 2 ^ 63 - 1
  | _ => True

/-- All integers in a node, at any depth, are no farther from zero than the largest of 64 bits. -/
def Node.IntegersHaveOpposites (node : Node) : Prop :=
  ∀ span n, (Node.expr (.integer span n)).Inside node → n.natAbs ≤ 2 ^ 63 - 1

theorem Node.Everywhere.integersHaveOpposites {node : Node} (h : node.Everywhere Expr.HasOpposite) :
    node.IntegersHaveOpposites := fun span n inside => h (.integer span n) inside

/-- An integer no farther from zero than the largest of 64 bits has an opposite of 64 bits. -/
theorem inRange_neg {n : Int} (bound : n.natAbs ≤ 2 ^ 63 - 1) : Value.inRange (-n) = true := by
  refine Value.inRange_iff.mpr ?_
  simp only [Value.minInt, Value.maxInt]
  omega

namespace Reader

theorem hasOpposite_keptByReading : KeptByReading AnyToken Expr.HasOpposite where
  leaf {token e} _ read := by
    have grouped := (leaf?_sound read).1.root
    cases e with
    | integer => exact grouped rfl
    | _ => trivial
  key _ _ := trivial
  field _ _ _ _ _ := trivial
  sign span {e} h := by
    cases e with
    | integer _ n => exact (Int.natAbs_neg n).trans_le h
    | _ => trivial
  form {e} leafless _ := by
    cases e with
    | integer => cases leafless
    | _ => trivial

/-! ## A reader that looks for overflows -/

section Checked

variable (halt : Halt) (layout : Layout)

/-- Folds a minus sign into a number, but stops where the negation of an integer has more than 64 bits. -/
def checkedNegated (span : Span) : Expr → Reader Expr
  | .integer _ n => if Value.inRange (-n) then return .integer span (-n) else throw halt
  | e => return negated span e

/-- `operand` with a check where a sign is folded. -/
def checkedOperand (limit : Nat) (sub : Precedence → Reader Expr) : Reader Expr := do
  let start := (← currentSpan layout).start
  if ← sees .minus then
    advance
    let e ← sub .unary
    checkedNegated halt (← spanFrom layout start) e
  else if ← sees .kwNot then
    advance
    let e ← sub .unary
    return .unary (← spanFrom layout start) .not e
  else
    primary layout limit sub

/-- `expressionAt` with a check where a sign is folded, at every depth. -/
def checkedExpressionAt : (limit : Nat) → (least : Precedence) → Reader Expr
  | 0, _ => exhausted
  | limit + 1, least => do
      let left ← checkedOperand halt layout (limit + 1) (checkedExpressionAt limit)
      continuation layout (limit + 1) (checkedExpressionAt limit) least (limit + 1) left

variable {halt layout}

theorem checkedNegated_eq {e : Expr} (opposite : e.HasOpposite) (span : Span) :
    checkedNegated halt span e = pure (negated span e) := by
  cases e with
  | integer => exact if_pos (inRange_neg opposite)
  | _ => rfl

/-- The check does stop at the least integer, which has no opposite. -/
example (halt : Halt) (span : Span) (c : Cursor) :
    checkedNegated halt span (.integer span (-9223372036854775808)) c = .error halt c := rfl

/-- What follows a reader only has to agree on what the reader can give. -/
theorem Always.bind_congr {α β : Type} {x : Reader α} {P : α → Prop} {f g : α → Reader β}
    (always : Always AnyToken x P) (same : ∀ a, P a → f a = g a) : x >>= f = x >>= g := by
  funext c
  change EStateM.bind x f c = EStateM.bind x g c
  unfold EStateM.bind
  cases read : x c with
  | ok a c' => simp only [same a (always.of_run c.tokensHave_any read)]
  | error => rfl

theorem checkedOperand_eq {limit : Nat} {sub : Precedence → Reader Expr}
    (each : ∀ least, Always AnyToken (sub least) Expr.HasOpposite) :
    checkedOperand halt layout limit sub = operand layout limit sub := by
  refine bind_congr fun place => bind_congr fun minus => ?_
  split
  · refine bind_congr fun _ => (each .unary).bind_congr fun e opposite => bind_congr fun span => ?_
    exact checkedNegated_eq opposite span
  · rfl

/-- No folded sign leaves the range, so looking for it changes nothing. -/
theorem checkedExpressionAt_eq (limit : Nat) :
    checkedExpressionAt halt layout limit = expressionAt layout limit := by
  induction limit with
  | zero => rfl
  | succ limit ih =>
      funext least
      have each : ∀ least, Always AnyToken (expressionAt layout limit least) Expr.HasOpposite := by
        intro least
        have kept := hasOpposite_keptByReading.expressionAt layout limit least
        exact kept.mono fun e everywhere => everywhere.root
      rw [checkedExpressionAt, ih, checkedOperand_eq each]
      rfl

end Checked

end Reader

end Surface

/-! ## Literals -/

open Clausal.Machine (Host Frame evalExpr)

/-- A literal that is negated without an overflow, if it is an integer. -/
def Core.Literal.Negates : Core.Literal → Prop
  | .int n => Value.negate (.int n) = .ok (.int (-n)) ∧
      ∀ (host : Host (Except Fault)) (frame : Frame),
        evalExpr host (.unary .neg (.literal (.int n))) frame = .ok (.int (-n), frame)
  | _ => True

theorem Core.Literal.negates_int {n : Int} (bound : n.natAbs ≤ 2 ^ 63 - 1) :
    (Core.Literal.int n).Negates := by
  have negated : Value.negate (.int n) = .ok (.int (-n)) := if_pos (Surface.inRange_neg bound)
  refine ⟨negated, fun host frame => ?_⟩
  rw [Machine.evalExpr_unary]
  change (Value.negate (.int n)).map (fun v => (v, frame)) = _
  rw [negated]
  rfl

namespace Lowering

theorem negates_of_literal? {e : Surface.Expr} (opposite : e.HasOpposite) :
    LiteralHas Core.Literal.Negates e := by
  intro value written
  unfold literal? at written
  split at written <;> cases written
  case h_1 => exact Core.Literal.negates_int opposite
  all_goals trivial

end Lowering

namespace Surface

open Clausal.Lowering (lowerFile)

/-- Folding signs into literals never overflows, whatever the text and however signs, parentheses and
operators are nested.

A reader that stops at an overflow reads every text as the reader that does not look for one.  Every integer
in a tree that is read is at most 2⁶³ - 1 away from zero, in the trees of whole texts and files, and also in
those that a fault behind them discards.  So the machine negates each integer literal that lowering makes of a
file, wherever it stands: in an expression, a pattern or a key of a map. -/
theorem integers_have_opposites (source : List Char) :
    (∀ halt layout limit, Reader.checkedExpressionAt halt layout limit = Reader.expressionAt layout limit) ∧
    (∀ layout limit least c e c', Reader.expressionAt layout limit least c = .ok e c' →
      (Node.expr e).IntegersHaveOpposites) ∧
    (∀ e, parseExpression source = .ok e → (Node.expr e).IntegersHaveOpposites) ∧
    (∀ item ∈ (parseFile source).1.items, item.node.IntegersHaveOpposites) ∧
    ∀ defaultModule modules, lowerFile defaultModule (parseFile source).1 = .ok modules →
      ∀ m ∈ modules, ∀ spec ∈ m.functions, ∀ value ∈ spec.literals, value.Negates := by
  have kept := Reader.hasOpposite_keptByReading
  refine ⟨fun _ _ => Reader.checkedExpressionAt_eq, ?_, ?_, ?_, ?_⟩
  · intro layout limit least c e c' read
    have everywhere := (kept.expressionAt layout limit least).of_run c.tokensHave_any read
    exact everywhere.integersHaveOpposites
  · intro e read
    exact (kept.parseExpression (fun _ _ => trivial) read).integersHaveOpposites
  · intro item member
    exact (kept.parseFile source (fun _ _ => trivial) item member).integersHaveOpposites
  · intro defaultModule modules lowered m inModules spec inModule
    refine Lowering.literals_lowerFile lowered trivial ?_ inModules inModule
    intro item member e inside
    exact Lowering.negates_of_literal? (kept.parseFile source (fun _ _ => trivial) item member e inside)

/-- A clause with a negative key and the largest integer of 64 bits under three signs. -/
def signedClause : List Char := "def f()\x7b(%\x7b-2=>---9223372036854775807\x7d)->7\x7d".toList

/-- Under three signs the largest integer of 64 bits is read as its opposite, which can be negated in turn. -/
theorem integers_have_opposites_signedClause :
    ∃ m spec, lowerFile "m" (parseFile signedClause).1 = .ok [m] ∧ m.functions = [spec] ∧
      spec.literals = [.int (-2), .int (-9223372036854775807), .int 7] ∧
      ∀ value ∈ spec.literals, value.Negates := by
  have read : (lowerFile "m" (parseFile signedClause).1).map
      (fun modules => modules.map fun m => m.functions.map FunctionSpec.literals)
        = .ok [[[.int (-2), .int (-9223372036854775807), .int 7]]] := by
    with_unfolding_all rfl
  have negates := (integers_have_opposites signedClause).2.2.2.2 "m"
  -- What follows looks at the result only, and need not read the text again.
  generalize lowerFile "m" (parseFile signedClause).1 = result at *
  rcases Outcome.map_eq_ok.mp read with ⟨modules, rfl, only⟩
  rcases List.map_eq_singleton_iff.mp only with ⟨m, rfl, single⟩
  rcases List.map_eq_singleton_iff.mp single with ⟨spec, here, literals⟩
  refine ⟨m, spec, rfl, here, literals, ?_⟩
  exact negates [m] rfl m (List.mem_singleton_self m) spec (here ▸ List.mem_singleton_self spec)

end Surface

end Clausal
