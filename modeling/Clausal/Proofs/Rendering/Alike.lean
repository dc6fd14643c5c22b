import Mathlib.Data.List.Forall2
import Clausal.Proofs.Execution

/-!
# Expressions with the same value

Two expressions are alike if in every host and every frame they give the same value and the same frame,
or both end with a fault.  The faults may differ: `(a <> b) <> c` complains about `a` and `b` before `c`
is evaluated, `a <> (b <> c)` does not.

Likeness is respected by every form of expression without blocks, and three laws change the form itself:
joining is associative (`alike_concat`), and a sign before a number is the opposite number
(`alike_neg_int`, `alike_neg_float`).
-/

namespace Clausal
namespace Machine

open Outcome

/-! ## Results -/

theorem sameResult_thenApply {α β : Type} {x y : Except Fault (α × Frame)} (first : SameResult x y)
    (step : α → Except Fault β) :
    SameResult (thenApply x step) (thenApply y step) :=
  first.bind fun _ => .refl _

/-! ## Expressions -/

/-- Two expressions with the same value in every host and frame. -/
def Alike (e e' : Core.Expr) : Prop :=
  ∀ (host : Host (Except Fault)) (frame : Frame),
    SameResult (evalExpr host e frame) (evalExpr host e' frame)

/-- Two entries of a map with the same key and value. -/
def AlikeEntry (entry entry' : Core.Expr × Core.Expr) : Prop :=
  Alike entry.1 entry'.1 ∧ Alike entry.2 entry'.2

namespace Alike

variable {e e' e'' left left' right right' : Core.Expr}

theorem refl (e : Core.Expr) : Alike e e := fun _ _ => .refl _

theorem trans (first : Alike e e') (second : Alike e' e'') : Alike e e'' :=
  fun host frame => (first host frame).trans (second host frame)

theorem symm (same : Alike e e') : Alike e' e := fun host frame => (same host frame).symm

/-! ### Rows -/

theorem row {es es' : List Core.Expr} (each : List.Forall₂ Alike es es')
    (host : Host (Except Fault)) (frame : Frame) :
    SameResult (evalExprs host es frame) (evalExprs host es' frame) := by
  induction each generalizing frame with
  | nil => exact .refl _
  | cons head _ tail =>
      rw [evalExprs_cons, evalExprs_cons]
      exact (head host frame).bind fun (_, frame₁) => sameResult_thenApply (tail frame₁) _

theorem entries {es es' : List (Core.Expr × Core.Expr)} (each : List.Forall₂ AlikeEntry es es')
    (host : Host (Except Fault)) (frame : Frame) :
    SameResult (evalEntries host es frame) (evalEntries host es' frame) := by
  induction each generalizing frame with
  | nil => exact .refl _
  | cons head _ tail =>
      rw [evalEntries_cons, evalEntries_cons]
      refine (head.1 host frame).bind fun (_, frame₁) => ?_
      exact (head.2 host frame₁).bind fun (_, frame₂) => sameResult_thenApply (tail frame₂) _

/-! ### Forms -/

theorem unary (op : UnaryOp) (same : Alike e e') : Alike (.unary op e) (.unary op e') := by
  intro host frame
  rw [evalExpr_unary, evalExpr_unary]
  exact sameResult_thenApply (same host frame) _

theorem binary (op : BinaryOp) (first : Alike left left') (second : Alike right right') :
    Alike (.binary op left right) (.binary op left' right') := by
  intro host frame
  cases op with
  | strict op =>
      rw [evalExpr_strict, evalExpr_strict]
      exact (first host frame).bind fun (_, frame₁) => sameResult_thenApply (second host frame₁) _
  | and =>
      rw [evalExpr_and, evalExpr_and]
      refine (first host frame).bind fun (_, frame₁) => (SameResult.refl _).bind fun truth => ?_
      cases truth with
      | false => exact .refl _
      | true =>
          rw [if_pos rfl, if_pos rfl]
          exact sameResult_thenApply (second host frame₁) _
  | or =>
      rw [evalExpr_or, evalExpr_or]
      refine (first host frame).bind fun (_, frame₁) => (SameResult.refl _).bind fun truth => ?_
      cases truth with
      | true => exact .refl _
      | false =>
          rw [if_neg Bool.false_ne_true, if_neg Bool.false_ne_true]
          exact sameResult_thenApply (second host frame₁) _

theorem call (callee : Core.Callee) {args args' : List Core.Expr}
    (each : List.Forall₂ Alike args args') : Alike (.call callee args) (.call callee args') := by
  intro host frame
  rw [evalExpr_call, evalExpr_call]
  exact (row each host frame).bind fun _ => .refl _

theorem list {items items' : List Core.Expr} (each : List.Forall₂ Alike items items') :
    Alike (.list items) (.list items') := by
  intro host frame
  rw [evalExpr_list, evalExpr_list]
  exact sameResult_thenApply (row each host frame) _

theorem listTail {items items' : List Core.Expr} (each : List.Forall₂ Alike items items')
    (last : Alike e e') : Alike (.listTail items e) (.listTail items' e') := by
  intro host frame
  rw [evalExpr_listTail, evalExpr_listTail]
  exact (row each host frame).bind fun (_, frame₁) => sameResult_thenApply (last host frame₁) _

theorem tuple {items items' : List Core.Expr} (each : List.Forall₂ Alike items items') :
    Alike (.tuple items) (.tuple items') := by
  intro host frame
  rw [evalExpr_tuple, evalExpr_tuple]
  exact sameResult_thenApply (row each host frame) _

theorem map {es es' : List (Core.Expr × Core.Expr)} (each : List.Forall₂ AlikeEntry es es') :
    Alike (.map es) (.map es') := by
  intro host frame
  rw [evalExpr_map, evalExpr_map]
  exact sameResult_thenApply (entries each host frame) _

theorem field (name : String) (same : Alike e e') : Alike (.field e name) (.field e' name) := by
  intro host frame
  rw [evalExpr_field, evalExpr_field]
  exact sameResult_thenApply (same host frame) _

end Alike

/-! ## Laws -/

/-- What can be joined: two texts or two binaries. -/
theorem join_eq_ok_iff {a b v : Value} :
    Value.join a b = .ok v ↔
      (∃ s t, a = .text s ∧ b = .text t ∧ v = .text (s ++ t)) ∨
        ∃ s t, a = .binary s ∧ b = .binary t ∧ v = .binary (s ++ t) := by
  unfold Value.join
  split
  next s t => simp [eq_comm]
  next s t => simp [eq_comm]
  next noTexts noBinaries =>
    simp only [reduceCtorEq, false_iff]
    rintro (⟨s, t, rfl, rfl, -⟩ | ⟨s, t, rfl, rfl, -⟩)
    · exact noTexts s t rfl rfl
    · exact noBinaries s t rfl rfl

/-- Joining from the left and from the right gives the same, where it gives anything. -/
theorem join_assoc (a b c v : Value) :
    (∃ ab, Value.join a b = .ok ab ∧ Value.join ab c = .ok v) ↔
      ∃ bc, Value.join b c = .ok bc ∧ Value.join a bc = .ok v := by
  simp only [join_eq_ok_iff]
  constructor
  · rintro ⟨_, ⟨s, t, rfl, rfl, rfl⟩ | ⟨s, t, rfl, rfl, rfl⟩, second⟩
    · obtain ⟨u, rfl, rfl⟩ : ∃ u, c = .text u ∧ v = .text (s ++ t ++ u) := by simpa using second
      exact ⟨.text (t ++ u), by simp, by simp [String.append_assoc]⟩
    · obtain ⟨u, rfl, rfl⟩ : ∃ u, c = .binary u ∧ v = .binary (s ++ t ++ u) := by
        simpa using second
      exact ⟨.binary (t ++ u), by simp, by simp⟩
  · rintro ⟨_, ⟨t, u, rfl, rfl, rfl⟩ | ⟨t, u, rfl, rfl, rfl⟩, first⟩
    · obtain ⟨s, rfl, rfl⟩ : ∃ s, a = .text s ∧ v = .text (s ++ (t ++ u)) := by simpa using first
      exact ⟨.text (s ++ t), by simp, by simp [String.append_assoc]⟩
    · obtain ⟨s, rfl, rfl⟩ : ∃ s, a = .binary s ∧ v = .binary (s ++ (t ++ u)) := by
        simpa using first
      exact ⟨.binary (s ++ t), by simp, by simp⟩

/-- Joining is associative. -/
theorem alike_concat (a b c : Core.Expr) :
    Alike (.binary (.strict .concat) (.binary (.strict .concat) a b) c)
      (.binary (.strict .concat) a (.binary (.strict .concat) b c)) := by
  intro host frame r
  -- Both evaluate the three operands in order; only the joins come at different times.
  have split : ∀ (e e' : Core.Expr) (frame : Frame) (v : Value) (frame' : Frame),
      evalExpr host (.binary (.strict .concat) e e') frame = .ok (v, frame') ↔
        ∃ a frame₁ b, evalExpr host e frame = .ok (a, frame₁) ∧
          evalExpr host e' frame₁ = .ok (b, frame') ∧ Value.join a b = .ok v := by
    intro e e' frame v frame'
    simp only [evalExpr_strict, thenApply, bind_eq_ok, map_eq_ok, Prod.exists, Value.apply,
      Prod.mk.injEq]
    constructor
    · rintro ⟨a, frame₁, first, b, _, second, _, joined, rfl, rfl⟩
      exact ⟨a, frame₁, b, first, second, joined⟩
    · rintro ⟨a, frame₁, b, first, second, joined⟩
      exact ⟨a, frame₁, first, b, frame', second, v, joined, rfl, rfl⟩
  obtain ⟨v, frame'⟩ := r
  simp only [split]
  constructor
  · rintro ⟨ab, frame₂, c', ⟨a', frame₁, b', first, second, joined⟩, third, whole⟩
    obtain ⟨bc, right, left⟩ := (join_assoc a' b' c' v).mp ⟨ab, joined, whole⟩
    exact ⟨a', frame₁, bc, first, ⟨b', frame₂, c', second, third, right⟩, left⟩
  · rintro ⟨a', frame₁, bc, first, ⟨b', frame₂, c', second, third, joined⟩, whole⟩
    obtain ⟨ab, left, right⟩ := (join_assoc a' b' c' v).mpr ⟨bc, joined, whole⟩
    exact ⟨ab, frame₂, c', ⟨a', frame₁, b', first, second, left⟩, third, right⟩

/-- A minus sign before an integer in range is the opposite integer. -/
theorem alike_neg_int {n : Int} (range : Value.inRange (-n) = true) :
    Alike (.literal (.int (-n))) (.unary .neg (.literal (.int n))) := by
  intro host frame
  have negated : Value.applyUnary .neg (.int n) = .ok (.int (-n)) := if_pos range
  have number : evalExpr host (.literal (.int n)) frame = .ok (.int n, frame) := rfl
  simp only [evalExpr_unary, number, thenApply, ok_bind, negated]
  exact .refl _

theorem alike_neg_float (x : Float) :
    Alike (.literal (.float (-x))) (.unary .neg (.literal (.float x))) := by
  intro host frame
  rw [evalExpr_unary]
  exact .refl _

end Machine
end Clausal
