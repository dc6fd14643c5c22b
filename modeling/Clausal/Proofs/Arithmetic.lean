import Clausal.Proofs.Execution

/-!
# Integer arithmetic is exact or refused

An arithmetic expression has a value in the integers, where nothing is too large (`ExactValue`).
Evaluation has only the integers of 64 bits.  It meets their limits at an operator, at a sign and in
`abs`, and each of the three settles its result on its own.

Evaluation is judged by whether all parts of the expression stay in range (`StaysInRange`): it then gives
the exact value, and otherwise reports an overflow (`ExactOrRefused`).  A step is treated once for all
operations of one operand and once for all of two, from what the operation makes of integers in range
(`Settles`).

Main statement: `arithmetic_exact_or_refused`.
-/

namespace Clausal
namespace Machine

open Clausal.Core (Builtin Slot)
open Outcome

/-! ## Exact values -/

/-- The operators that give integers for integers. -/
def exactOperator? : StrictOp → Option (Int → Int → Int)
  | .add => some (· + ·)
  | .sub => some (· - ·)
  | .mul => some (· * ·)
  | _ => none

/-- The value of an arithmetic expression in the integers.  Literals and variables are integers of
64 bits, all other values may be of any size. -/
inductive ExactValue (frame : Frame) : Core.Expr → Int → Prop where
  | literal {n : Int} (range : Value.inRange n = true) : ExactValue frame (.literal (.int n)) n
  | var {slot : Slot} {n : Int} (held : frame.get? slot = some (.int n))
      (range : Value.inRange n = true) : ExactValue frame (.var slot) n
  | neg {e : Core.Expr} {n : Int} (operand : ExactValue frame e n) :
      ExactValue frame (.unary .neg e) (-n)
  | operator {op : StrictOp} {exact : Int → Int → Int} {left right : Core.Expr} {a b : Int}
      (known : exactOperator? op = some exact) (first : ExactValue frame left a)
      (second : ExactValue frame right b) : ExactValue frame (.binary (.strict op) left right) (exact a b)
  | abs {e : Core.Expr} {n : Int} (operand : ExactValue frame e n) :
      ExactValue frame (.call (.builtin .abs) [e]) n.natAbs
  | min {left right : Core.Expr} {a b : Int} (first : ExactValue frame left a)
      (second : ExactValue frame right b) : ExactValue frame (.call (.builtin .min) [left, right]) (min a b)
  | max {left right : Core.Expr} {a b : Int} (first : ExactValue frame left a)
      (second : ExactValue frame right b) : ExactValue frame (.call (.builtin .max) [left, right]) (max a b)

/-- The expressions that an operation is applied to. -/
def operandsOf : Core.Expr → List Core.Expr
  | .unary _ e => [e]
  | .binary _ left right => [left, right]
  | .call _ args => args
  | _ => []

/-- An expression and, at any depth, the operands in it. -/
inductive PartOf : Core.Expr → Core.Expr → Prop where
  | self (e : Core.Expr) : PartOf e e
  | operand {part operand e : Core.Expr} (member : operand ∈ operandsOf e)
      (inside : PartOf part operand) : PartOf part e

/-- No part of an expression has a value beyond 64 bits. -/
def StaysInRange (frame : Frame) (e : Core.Expr) : Prop :=
  ∀ part n, PartOf part e → ExactValue frame part n → Value.inRange n = true

section Values

variable {frame : Frame} {e : Core.Expr} {m n : Int}

theorem ExactValue.unique (first : ExactValue frame e m) (second : ExactValue frame e n) : m = n := by
  induction first generalizing n with
  | literal =>
      cases second
      rfl
  | var held =>
      cases second with
      | var held' => simpa [held] using held'
  | neg _ ih =>
      cases second with
      | neg operand => rw [ih operand]
  | operator known _ _ ihLeft ihRight =>
      cases second with
      | operator known' left right =>
          cases known.symm.trans known'
          rw [ihLeft left, ihRight right]
  | abs _ ih =>
      cases second with
      | abs operand => rw [ih operand]
  | min _ _ ihLeft ihRight =>
      cases second with
      | min left right => rw [ihLeft left, ihRight right]
  | max _ _ ihLeft ihRight =>
      cases second with
      | max left right => rw [ihLeft left, ihRight right]

/-- An expression stays in range when its own value does and its operands do. -/
theorem staysInRange_iff (value : ExactValue frame e n) :
    StaysInRange frame e ↔
      Value.inRange n = true ∧ ∀ operand ∈ operandsOf e, StaysInRange frame operand := by
  constructor
  · intro stays
    refine ⟨stays e n (.self e) value, ?_⟩
    intro operand member part k inside
    exact stays part k (.operand member inside)
  · rintro ⟨range, operands⟩ part k inside known
    cases inside with
    | self => exact value.unique known ▸ range
    | operand member inside => exact operands _ member part k inside known

theorem StaysInRange.inRange (stays : StaysInRange frame e) (value : ExactValue frame e n) :
    Value.inRange n = true := ((staysInRange_iff value).mp stays).1

end Values

/-! ## One operation -/

/-- A result that is the exact value when everything fits, and an overflow when something does not. -/
structure ExactOrRefused (frame : Frame) (fits : Prop) (n : Int)
    (result : Except Fault (Value × Frame)) : Prop where
  exact : fits → result = .ok (.int n, frame)
  refused : ¬ fits → ∃ operation, result = .error (.overflow operation)

/-- The outcome of an operation whose exact result is `n`: this result, unless it is out of range. -/
def Settles (n : Int) (outcome : Except Fault Value) : Prop :=
  ∃ operation, outcome = Value.checked n operation

section Operations

variable {frame : Frame} {p q : Prop} {a b c n : Int} {result : Except Fault (Value × Frame)}

theorem Settles.of_inRange (range : Value.inRange n = true) : Settles n (.ok (.int n)) :=
  ⟨"", by rw [Value.checked, if_pos range]⟩

/-- Settling a value is the last step of an operation; the frame stays as it was. -/
theorem Settles.exactOrRefused {outcome : Except Fault Value} (settles : Settles n outcome) :
    ExactOrRefused frame (Value.inRange n = true) n (outcome.map fun v => (v, frame)) := by
  rcases settles with ⟨operation, rfl⟩
  constructor
  · intro range
    rw [Value.checked, if_pos range]
    rfl
  · intro beyond
    rw [Value.checked, if_neg beyond]
    exact ⟨operation, rfl⟩

/-- What follows a value that fits is settled by what comes after it. -/
theorem ExactOrRefused.bind {next : Value × Frame → Except Fault (Value × Frame)}
    (first : ExactOrRefused frame p a result) (then_ : p → ExactOrRefused frame q n (next (.int a, frame))) :
    ExactOrRefused frame (p ∧ q) n (result >>= next) := by
  constructor
  · rintro ⟨fits, fits'⟩
    rw [first.exact fits]
    exact (then_ fits).exact fits'
  · intro beyond
    -- The fault that is reported is the first one on the way.
    by_cases fits : p
    · rw [first.exact fits]
      exact (then_ fits).refused fun fits' => beyond ⟨fits, fits'⟩
    · rcases first.refused fits with ⟨operation, overflow⟩
      rw [overflow]
      exact ⟨operation, rfl⟩

theorem ExactOrRefused.congr (h : ExactOrRefused frame p n result) (iff : p ↔ q) :
    ExactOrRefused frame q n result :=
  ⟨fun fits => h.exact (iff.mpr fits), fun beyond => h.refused fun fits => beyond (iff.mp fits)⟩

theorem settles_neg : Settles (-n) (Value.applyUnary .neg (.int n)) := ⟨_, rfl⟩

theorem settles_abs : Settles n.natAbs (applyOne .abs (.int n)) := ⟨_, rfl⟩

theorem settles_operator {op : StrictOp} {exact : Int → Int → Int}
    (known : exactOperator? op = some exact) : Settles (exact a b) (Value.apply op (.int a) (.int b)) := by
  cases op <;> cases known <;> exact ⟨_, rfl⟩

/-- The smaller and the larger of two integers in range are one of the two. -/
theorem settles_choose (builtin : Builtin) (keep : Ordering → Bool) (first : Value.inRange a = true)
    (second : Value.inRange b = true) :
    Settles (if keep (compare a b) then a else b) (choose builtin keep (.int a) (.int b)) := by
  have chosen : choose builtin keep (.int a) (.int b)
      = .ok (if keep (compare a b) then .int a else .int b) := rfl
  rw [chosen]
  split
  · exact .of_inRange first
  · exact .of_inRange second

theorem settles_min (first : Value.inRange a = true) (second : Value.inRange b = true) :
    Settles (min a b) (applyTwo .min (.int a) (.int b)) := by
  -- Of two equal integers the comparison keeps the first, as `min` does.
  have smaller : min a b = if (compare a b != .gt) = true then a else b := by
    simp only [bne_iff_ne, Int.compare_ne_gt]
    exact Int.min_def a b
  rw [smaller]
  exact settles_choose .min (· != .gt) first second

theorem settles_max (first : Value.inRange a = true) (second : Value.inRange b = true) :
    Settles (max a b) (applyTwo .max (.int a) (.int b)) := by
  have larger : max a b = if (compare a b != .lt) = true then a else b := by
    simp only [bne_iff_ne, Int.compare_ne_lt]
    rw [Int.max_comm]
    exact Int.max_def b a
  rw [larger]
  exact settles_choose .max (· != .lt) first second

end Operations

/-! ## Evaluation -/

section Evaluation

variable (host : Host (Except Fault)) {frame : Frame} {p q : Prop} {e left right : Core.Expr} {a b n : Int}

theorem evalExpr_var {slot : Slot} {v : Value} (held : frame.get? slot = some v) :
    evalExpr host (.var slot) frame = .ok (v, frame) := by
  change readSlot host slot frame = _
  have got : (get : StateT Frame (Except Fault) Frame) frame = .ok (frame, frame) := rfl
  rw [readSlot, run_bind_of_ok got]
  simp only [held]
  rfl

theorem evalExpr_applyOne {builtin : Builtin} (arity : builtin.arity = 1) :
    evalExpr host (.call (.builtin builtin) [e]) frame
      = thenApply (evalExpr host e frame) (applyOne builtin) := by
  rw [evalExpr_call, evalExprs_cons]
  cases evalExpr host e frame with
  | error fault => rfl
  | ok found =>
      have applied : applyBuiltin builtin [found.1] = applyOne builtin found.1 := by
        rw [applyBuiltin, if_neg (by simp [arity])]
      change (settle (applyBuiltin builtin [found.1]) : StateT Frame (Except Fault) Value) found.2 = _
      rw [applied, settle_run]
      rfl

theorem evalExpr_applyTwo {builtin : Builtin} (arity : builtin.arity = 2) :
    evalExpr host (.call (.builtin builtin) [left, right]) frame
      = evalExpr host left frame >>= fun (v, frame₁) =>
          thenApply (evalExpr host right frame₁) (applyTwo builtin v) := by
  rw [evalExpr_call, evalExprs_cons]
  cases evalExpr host left frame with
  | error fault => rfl
  | ok found =>
      rcases found with ⟨v, frame₁⟩
      simp only [ok_bind, evalExprs_cons]
      cases evalExpr host right frame₁ with
      | error fault => rfl
      | ok found' =>
          rcases found' with ⟨w, frame₂⟩
          have applied : applyBuiltin builtin [v, w] = applyTwo builtin v w := by
            rw [applyBuiltin, if_neg (by simp [arity])]
          change (settle (applyBuiltin builtin [v, w]) : StateT Frame (Except Fault) Value) frame₂ = _
          rw [applied, settle_run]
          rfl

/-- An operation of one operand. -/
theorem exactOrRefused_one {step : Value → Except Fault Value}
    (operand : ExactOrRefused frame p a (evalExpr host e frame)) (settles : p → Settles n (step (.int a))) :
    ExactOrRefused frame (p ∧ Value.inRange n = true) n (thenApply (evalExpr host e frame) step) :=
  operand.bind fun fits => (settles fits).exactOrRefused

/-- An operation of two operands, which are evaluated from left to right. -/
theorem exactOrRefused_two {step : Value → Value → Except Fault Value}
    (first : ExactOrRefused frame p a (evalExpr host left frame))
    (second : ExactOrRefused frame q b (evalExpr host right frame))
    (settles : p → q → Settles n (step (.int a) (.int b))) :
    ExactOrRefused frame (p ∧ q ∧ Value.inRange n = true) n
      (evalExpr host left frame >>= fun (v, frame₁) =>
        thenApply (evalExpr host right frame₁) (step v)) :=
  first.bind fun fits => second.bind fun fits' => (settles fits fits').exactOrRefused

/-- Evaluating an arithmetic expression gives its exact value if no part of it has a value beyond 64 bits,
and otherwise reports an overflow.  It runs nothing of the machine, so the host does not matter. -/
theorem arithmetic_exact_or_refused (value : ExactValue frame e n) :
    ExactOrRefused frame (StaysInRange frame e) n (evalExpr host e frame) := by
  -- Along the derivation of the value: an operation adds to what its operands ask for that its own
  -- result is in range.
  induction value with
  | literal range =>
      refine ⟨fun _ => rfl, fun beyond => absurd ?_ beyond⟩
      exact (staysInRange_iff (.literal range)).mpr ⟨range, nofun⟩
  | var held range =>
      refine ⟨fun _ => evalExpr_var host held, fun beyond => absurd ?_ beyond⟩
      exact (staysInRange_iff (.var held range)).mpr ⟨range, nofun⟩
  | neg operand ih =>
      rw [evalExpr_unary]
      apply (exactOrRefused_one host ih fun _ => settles_neg).congr
      rw [staysInRange_iff (.neg operand)]
      simp [operandsOf, and_comm]
  | operator known first second ih₁ ih₂ =>
      rw [evalExpr_strict]
      apply (exactOrRefused_two host ih₁ ih₂ fun _ _ => settles_operator known).congr
      rw [staysInRange_iff (.operator known first second)]
      simp [operandsOf, and_comm, and_assoc]
  | abs operand ih =>
      rw [evalExpr_applyOne host rfl]
      apply (exactOrRefused_one host ih fun _ => settles_abs).congr
      rw [staysInRange_iff (.abs operand)]
      simp [operandsOf, and_comm]
  | min first second ih₁ ih₂ =>
      rw [evalExpr_applyTwo host rfl]
      apply (exactOrRefused_two host ih₁ ih₂ fun fits fits' =>
        settles_min (fits.inRange first) (fits'.inRange second)).congr
      rw [staysInRange_iff (.min first second)]
      simp [operandsOf, and_comm, and_assoc]
  | max first second ih₁ ih₂ =>
      rw [evalExpr_applyTwo host rfl]
      apply (exactOrRefused_two host ih₁ ih₂ fun fits fits' =>
        settles_max (fits.inRange first) (fits'.inRange second)).congr
      rw [staysInRange_iff (.max first second)]
      simp [operandsOf, and_comm, and_assoc]

end Evaluation

/-- With the lowest integer in the variable, `min(-x, 0) + x` has a value of 64 bits and is refused for its
sign, while `max(x, 0) + x` is evaluated. -/
theorem arithmetic_exact_or_refused_lowest :
    let host : Host (Except Fault) := ⟨"", [], [], [], fun _ _ _ => .ok .nil⟩
    let x : Core.Expr := .var 0
    let zero : Core.Expr := .literal (.int 0)
    let frame : Frame := [(0, .int Value.minInt)]
    let refused : Core.Expr :=
      .binary (.strict .add) (.call (.builtin .min) [.unary .neg x, zero]) x
    let evaluated : Core.Expr := .binary (.strict .add) (.call (.builtin .max) [x, zero]) x
    ExactValue frame refused Value.minInt ∧ ExactValue frame evaluated Value.minInt ∧
      (∃ operation, evalExpr host refused frame = .error (.overflow operation)) ∧
      evalExpr host evaluated frame = .ok (.int Value.minInt, frame) := by
  intro host x zero frame refused evaluated
  have lowest : ExactValue frame x Value.minInt := .var rfl (by decide)
  have nothing : ExactValue frame zero 0 := .literal (by decide)
  have value₁ : ExactValue frame refused (min (-Value.minInt) 0 + Value.minInt) :=
    .operator rfl (.min (.neg lowest) nothing) lowest
  have value₂ : ExactValue frame evaluated (max Value.minInt 0 + Value.minInt) :=
    .operator rfl (.max lowest nothing) lowest
  refine ⟨value₁, value₂, ?_, ?_⟩
  · apply (arithmetic_exact_or_refused host value₁).refused
    intro stays
    -- The sign has the value 2^63, although the sum around it is in range.
    have part : PartOf (.unary .neg x) refused :=
      .operand (.head _) (.operand (.head _) (.self _))
    exact absurd (stays _ _ part (.neg lowest)) (by decide)
  · apply (arithmetic_exact_or_refused host value₂).exact
    have staysX : StaysInRange frame x := (staysInRange_iff lowest).mpr ⟨by decide, nofun⟩
    have staysZero : StaysInRange frame zero := (staysInRange_iff nothing).mpr ⟨by decide, nofun⟩
    have staysMax : StaysInRange frame (.call (.builtin .max) [x, zero]) :=
      (staysInRange_iff (.max lowest nothing)).mpr
        ⟨by decide, by simpa [operandsOf] using ⟨staysX, staysZero⟩⟩
    exact (staysInRange_iff value₂).mpr ⟨by decide, by simpa [operandsOf, evaluated] using ⟨staysMax, staysX⟩⟩

end Machine
end Clausal
