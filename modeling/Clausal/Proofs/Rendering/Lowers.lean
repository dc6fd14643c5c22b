import Clausal.Proofs.Lowering.Addressing
import Clausal.Proofs.Rendering.Alike
import Clausal.Proofs.Syntax.Grammar

/-!
# Lowering trees without blocks

A tree without blocks binds nothing, so lowering it leaves the table of bindings alone: `Lowers names t e`
says that the tree `t` is lowered to `e` in the scope `names`, whatever the table is.  The places of a tree
do not matter (`lowers_of_erase_eq`), and a tree that is lowered is never taken for the name of a module
(`not_isModulePath`).
-/

namespace Clausal
namespace Lowering

open Clausal.Core (Bindings)
open Surface (Expr Stmt)
open Outcome
open Machine (Alike AlikeEntry)

/-! ## Places do not matter -/

theorem path?_erase (t : Expr) : t.erase.path? = t.path? := by
  cases t with
  | field span target name => simp only [Expr.erase, Expr.path?, path?_erase target]
  | _ => rw [Expr.erase]; rfl

theorem pathRoot?_erase (t : Expr) : t.erase.pathRoot? = t.pathRoot? := by
  cases t with
  | field span target name => simp only [Expr.erase, Expr.pathRoot?, pathRoot?_erase target]
  | _ => rw [Expr.erase]; rfl

theorem isModulePath_erase (names : Names) (t : Expr) :
    isModulePath names t.erase = isModulePath names t := by
  unfold isModulePath
  rw [pathRoot?_erase]

theorem lowerCallee_erase (names : Names) (callee : Expr) :
    SameResult (lowerCallee names callee.erase) (lowerCallee names callee) := by
  cases callee with
  | ident span name =>
      rw [Expr.erase, lowerCallee, lowerCallee]
      cases names.lookup name with
      | some slot => exact .error _ _
      | none => exact .refl _
  | field span target name =>
      rw [Expr.erase, lowerCallee, lowerCallee, isModulePath_erase, path?_erase]
      split
      · exact .refl _
      · exact .error _ _
  | _ => rw [Expr.erase, lowerCallee, lowerCallee] <;> first | exact .error _ _ | nofun

mutual

/-- Lowering looks at the places of a tree only to report them. -/
theorem lowerExpr_erase (names : Names) (t : Expr) (table : Bindings) :
    SameResult (lowerExpr names t.erase table) (lowerExpr names t table) := by
  cases t with
  | integer | float | text | atom | bool | nil => rw [Expr.erase]; exact .refl _
  | ident span name =>
      rw [Expr.erase, lowerExpr, lowerExpr]
      cases names.lookup name with
      | some slot => exact .refl _
      | none => exact .error _ _
  | unary span op t =>
      rw [Expr.erase, lowerExpr, lowerExpr]
      exact .run_bind (lowerExpr_erase names t table) fun _ _ => .refl _
  | binary span op left right =>
      rw [Expr.erase, lowerExpr, lowerExpr]
      exact .run_bind (lowerExpr_erase names left table) fun _ table =>
        .run_bind (lowerExpr_erase names right table) fun _ _ => .refl _
  | call span callee args =>
      rw [Expr.erase, lowerExpr, lowerExpr]
      refine .run_bind ?_ fun _ table =>
        .run_bind (lowerExprs_erase names args table) fun _ _ => .refl _
      exact (lowerCallee_erase names callee).bind fun _ => .refl _
  | field span target name =>
      rw [Expr.erase, lowerExpr, lowerExpr, isModulePath_erase]
      split
      · exact .error _ _
      · exact .run_bind (lowerExpr_erase names target table) fun _ _ => .refl _
  | paren span items =>
      rw [Expr.erase]
      match items with
      | [single] =>
          rw [Expr.eraseEach, Expr.eraseEach, lowerExpr, lowerExpr]
          exact lowerExpr_erase names single table
      | [] => exact .error _ _
      | _ :: _ :: _ => exact .error _ _
  | list span items | tuple span items =>
      rw [Expr.erase, lowerExpr, lowerExpr]
      exact .run_bind (lowerExprs_erase names items table) fun _ _ => .refl _
  | listTail span items tail =>
      rw [Expr.erase, lowerExpr, lowerExpr]
      exact .run_bind (lowerExprs_erase names items table) fun _ table =>
        .run_bind (lowerExpr_erase names tail table) fun _ _ => .refl _
  | map span entries =>
      rw [Expr.erase, lowerExpr, lowerExpr]
      exact .run_bind (lowerEntries_erase names entries table) fun _ _ => .refl _
  | cond span condition thenBlock elseBlock =>
      rw [Expr.erase, lowerExpr, lowerExpr]
      exact .run_bind (lowerExpr_erase names condition table) fun _ table =>
        .run_bind (lowerStmts_erase names thenBlock table) fun _ table =>
          .run_bind (lowerStmts_erase names elseBlock table) fun _ _ => .refl _
  | clause | guarded | defaulted | index =>
      rw [Expr.erase, lowerExpr, lowerExpr]
      exact .error _ _

theorem lowerExprs_erase (names : Names) (ts : List Expr) (table : Bindings) :
    SameResult (lowerExprs names (Expr.eraseEach ts) table) (lowerExprs names ts table) := by
  cases ts with
  | nil => exact .refl _
  | cons t ts =>
      rw [Expr.eraseEach, lowerExprs, lowerExprs]
      exact .run_bind (lowerExpr_erase names t table) fun _ table =>
        .run_bind (lowerExprs_erase names ts table) fun _ _ => .refl _

theorem lowerEntries_erase (names : Names) (ts : List (Expr × Expr)) (table : Bindings) :
    SameResult (lowerEntries names (Expr.eraseEntries ts) table) (lowerEntries names ts table) := by
  match ts with
  | [] => exact .refl _
  | (key, value) :: ts =>
      rw [Expr.eraseEntries, lowerEntries, lowerEntries]
      exact .run_bind (lowerExpr_erase names key table) fun _ table =>
        .run_bind (lowerExpr_erase names value table) fun _ table =>
          .run_bind (lowerEntries_erase names ts table) fun _ _ => .refl _

theorem lowerStmts_erase (names : Names) (stmts : List Stmt) (table : Bindings) :
    SameResult (lowerStmts names (Expr.eraseBlock stmts) table) (lowerStmts names stmts table) := by
  match stmts with
  | [] => exact .refl _
  | .bind span name value :: stmts =>
      rw [Expr.eraseBlock, lowerStmts, lowerStmts]
      refine .run_bind (lowerExpr_erase names value table) fun _ table => ?_
      split
      · exact .error _ _
      · exact .run_bind (.refl _) fun slot table =>
          .run_bind (lowerStmts_erase _ stmts table) fun _ _ => .refl _
  | .expr value :: stmts =>
      rw [Expr.eraseBlock, lowerStmts, lowerStmts]
      exact .run_bind (lowerExpr_erase names value table) fun _ table =>
        .run_bind (lowerStmts_erase names stmts table) fun _ _ => .refl _

end

/-! ## Lowered trees -/

/-- In the scope `names`, the tree is lowered to `e`, and nothing is bound. -/
def Lowers (names : Names) (t : Expr) (e : Core.Expr) : Prop :=
  ∀ table, lowerExpr names t table = .ok (e, table)

section Lowers

variable {names : Names} {t : Expr} {e : Core.Expr}

theorem lowers_of_erase_eq {out : Expr} (same : out.erase = t.erase) (lowers : Lowers names t e) :
    Lowers names out e := by
  intro table
  have there := (lowerExpr_erase names t table _).mpr (lowers table)
  rw [← same] at there
  exact (lowerExpr_erase names out table _).mp there

/-- What is lowered as an expression is not taken for the name of a module. -/
theorem Lowers.not_isModulePath (lowers : Lowers names t e) : isModulePath names t = false := by
  cases t with
  | ident span name =>
      have lowered := lowers []
      rw [lowerExpr] at lowered
      cases found : names.lookup name with
      | none => rw [found] at lowered; cases lowered
      | some slot => simp [isModulePath, Expr.pathRoot?, found]
  | field span target name =>
      have lowered := lowers []
      rw [lowerExpr] at lowered
      have root : isModulePath names (.field span target name) = isModulePath names target := rfl
      rw [root]
      by_contra path
      rw [if_pos (by simpa using path)] at lowered
      cases lowered
  | _ => rfl

/-- The operands of a lowered infix form are lowered. -/
theorem Lowers.operands {span : Span} {op : BinaryOp} {left right : Expr}
    (lowers : Lowers names (.binary span op left right) e) :
    ∃ e₁ e₂, e = .binary op e₁ e₂ ∧ Lowers names left e₁ ∧ Lowers names right e₂ := by
  have steps : ∀ table, ∃ e₁ e₂, e = .binary op e₁ e₂ ∧
      lowerExpr names left table = .ok (e₁, table) ∧ lowerExpr names right table = .ok (e₂, table) := by
    intro table
    have lowered := lowers table
    rw [lowerExpr] at lowered
    obtain ⟨e₁, middle, first, lowered⟩ := run_bind_eq_ok.mp lowered
    obtain ⟨e₂, final, second, done⟩ := run_bind_eq_ok.mp lowered
    cases done
    -- The table grows to what it was before, so it stays the same in between.
    have before := (lowerExpr_addressed left first).grows
    have after := (lowerExpr_addressed right second).grows
    obtain rfl : table = middle := before.eq_of_length_le after.length_le
    exact ⟨e₁, e₂, rfl, first, second⟩
  obtain ⟨e₁, e₂, rfl, -⟩ := steps []
  refine ⟨e₁, e₂, rfl, fun table => ?_, fun table => ?_⟩
  · obtain ⟨_, _, same, first, -⟩ := steps table
    cases same
    exact first
  · obtain ⟨_, _, same, -, second⟩ := steps table
    cases same
    exact second

theorem lowerExprs_of_forall₂ {ts : List Expr} {es : List Core.Expr}
    (each : List.Forall₂ (Lowers names) ts es) (table : Bindings) :
    lowerExprs names ts table = .ok (es, table) := by
  induction each with
  | nil => rfl
  | cons head _ tail => rw [lowerExprs, run_bind_of_ok (head table), run_bind_of_ok tail]; rfl

theorem lowerEntries_of_forall₂ {ts : List (Expr × Expr)} {es : List (Core.Expr × Core.Expr)}
    (each : List.Forall₂ (fun t e => Lowers names t.1 e.1 ∧ Lowers names t.2 e.2) ts es)
    (table : Bindings) : lowerEntries names ts table = .ok (es, table) := by
  induction each with
  | nil => rfl
  | cons head _ tail =>
      rw [lowerEntries, run_bind_of_ok (head.1 table), run_bind_of_ok (head.2 table),
        run_bind_of_ok tail]
      rfl

end Lowers

/-! ## What a tree stands for -/

/-- In the scope `names`, the tree is lowered to an expression with the same value as `e`. -/
def Denotes (names : Names) (t : Expr) (e : Core.Expr) : Prop :=
  ∃ e', Lowers names t e' ∧ Alike e' e

/-- An entry of a map stands for another, key and value. -/
def DenotesEntry (names : Names) (t : Expr × Expr) (e : Core.Expr × Core.Expr) : Prop :=
  Denotes names t.1 e.1 ∧ Denotes names t.2 e.2

theorem Lowers.denotes {names : Names} {t : Expr} {e : Core.Expr} (lowers : Lowers names t e) :
    Denotes names t e :=
  ⟨e, lowers, .refl e⟩

namespace Denotes

variable {names : Names} {t left right : Expr} {e e₁ e₂ : Core.Expr} {span : Span}

theorem trans (denotes : Denotes names t e₁) (same : Alike e₁ e₂) : Denotes names t e₂ := by
  obtain ⟨e', lowers, alike⟩ := denotes
  exact ⟨e', lowers, alike.trans same⟩

/-- The trees of a row are lowered one by one. -/
theorem row {ts : List Expr} {es : List Core.Expr} (each : List.Forall₂ (Denotes names) ts es) :
    ∃ es', List.Forall₂ (Lowers names) ts es' ∧ List.Forall₂ Alike es' es := by
  induction each with
  | nil => exact ⟨[], .nil, .nil⟩
  | cons head _ tail =>
      obtain ⟨e', lowers, alike⟩ := head
      obtain ⟨es', lowersEach, alikeEach⟩ := tail
      exact ⟨e' :: es', .cons lowers lowersEach, .cons alike alikeEach⟩

theorem entries {ts : List (Expr × Expr)} {es : List (Core.Expr × Core.Expr)}
    (each : List.Forall₂ (DenotesEntry names) ts es) :
    ∃ es', List.Forall₂ (fun t e => Lowers names t.1 e.1 ∧ Lowers names t.2 e.2) ts es' ∧
      List.Forall₂ AlikeEntry es' es := by
  induction each with
  | nil => exact ⟨[], .nil, .nil⟩
  | cons head _ tail =>
      obtain ⟨⟨key, lowersKey, alikeKey⟩, value, lowersValue, alikeValue⟩ := head
      obtain ⟨es', lowersEach, alikeEach⟩ := tail
      exact ⟨(key, value) :: es', .cons ⟨lowersKey, lowersValue⟩ lowersEach,
        .cons ⟨alikeKey, alikeValue⟩ alikeEach⟩

theorem unary (op : UnaryOp) (inner : Denotes names t e) :
    Denotes names (.unary span op t) (.unary op e) := by
  obtain ⟨e', lowers, alike⟩ := inner
  refine ⟨.unary op e', fun table => ?_, alike.unary op⟩
  rw [lowerExpr, run_bind_of_ok (lowers table)]
  rfl

theorem binary (op : BinaryOp) (first : Denotes names left e₁) (second : Denotes names right e₂) :
    Denotes names (.binary span op left right) (.binary op e₁ e₂) := by
  obtain ⟨e₁', lowers₁, alike₁⟩ := first
  obtain ⟨e₂', lowers₂, alike₂⟩ := second
  refine ⟨.binary op e₁' e₂', fun table => ?_, alike₁.binary op alike₂⟩
  rw [lowerExpr, run_bind_of_ok (lowers₁ table), run_bind_of_ok (lowers₂ table)]
  rfl

theorem paren (inner : Denotes names t e) : Denotes names (.paren span [t]) e := by
  obtain ⟨e', lowers, alike⟩ := inner
  exact ⟨e', fun table => by rw [lowerExpr]; exact lowers table, alike⟩

theorem field (name : String) (inner : Denotes names t e) :
    Denotes names (.field span t name) (.field e name) := by
  obtain ⟨e', lowers, alike⟩ := inner
  refine ⟨.field e' name, fun table => ?_, alike.field name⟩
  rw [lowerExpr, lowers.not_isModulePath, if_neg Bool.false_ne_true,
    run_bind_of_ok (lowers table)]
  rfl

theorem call {callee : Expr} {target : Core.Callee} {ts : List Expr} {es : List Core.Expr}
    (resolved : lowerCallee names callee = .ok target)
    (each : List.Forall₂ (Denotes names) ts es) :
    Denotes names (.call span callee ts) (.call target es) := by
  obtain ⟨es', lowers, alike⟩ := row each
  refine ⟨.call target es', fun table => ?_, .call target alike⟩
  have known : (liftM (lowerCallee names callee) : Lower Core.Callee) table = .ok (target, table) := by
    rw [resolved]
    rfl
  rw [lowerExpr, run_bind_of_ok known, run_bind_of_ok (lowerExprs_of_forall₂ lowers table)]
  rfl

theorem list {ts : List Expr} {es : List Core.Expr} (each : List.Forall₂ (Denotes names) ts es) :
    Denotes names (.list span ts) (.list es) := by
  obtain ⟨es', lowers, alike⟩ := row each
  refine ⟨.list es', fun table => ?_, .list alike⟩
  rw [lowerExpr, run_bind_of_ok (lowerExprs_of_forall₂ lowers table)]
  rfl

theorem tuple {ts : List Expr} {es : List Core.Expr} (each : List.Forall₂ (Denotes names) ts es) :
    Denotes names (.tuple span ts) (.tuple es) := by
  obtain ⟨es', lowers, alike⟩ := row each
  refine ⟨.tuple es', fun table => ?_, .tuple alike⟩
  rw [lowerExpr, run_bind_of_ok (lowerExprs_of_forall₂ lowers table)]
  rfl

theorem listTail {ts : List Expr} {es : List Core.Expr}
    (each : List.Forall₂ (Denotes names) ts es) (last : Denotes names t e) :
    Denotes names (.listTail span ts t) (.listTail es e) := by
  obtain ⟨es', lowersEach, alikeEach⟩ := row each
  obtain ⟨e', lowers, alike⟩ := last
  refine ⟨.listTail es' e', fun table => ?_, .listTail alikeEach alike⟩
  rw [lowerExpr, run_bind_of_ok (lowerExprs_of_forall₂ lowersEach table),
    run_bind_of_ok (lowers table)]
  rfl

theorem map {ts : List (Expr × Expr)} {es : List (Core.Expr × Core.Expr)}
    (each : List.Forall₂ (DenotesEntry names) ts es) :
    Denotes names (.map span ts) (.map es) := by
  obtain ⟨es', lowers, alike⟩ := entries each
  refine ⟨.map es', fun table => ?_, .map alike⟩
  rw [lowerExpr, run_bind_of_ok (lowerEntries_of_forall₂ lowers table)]
  rfl

/-! ### Forms that the reader changes -/

/-- A minus sign stands for the opposite number also when it is folded into the number. -/
theorem negated (inner : Denotes names t e)
    (range : ∀ span n, t = .integer span n → n.natAbs ≤ Surface.Reader.maxInteger) :
    Denotes names (Surface.Reader.negated span t) (.unary .neg e) := by
  cases t with
  | integer span' n =>
      obtain ⟨e', lowers, alike⟩ := inner
      cases lowers []
      have bounds := range span' n rfl
      -- The number was read without its sign, so its opposite is in range.
      have inRange : Value.inRange (-n) = true := by
        rw [Surface.Reader.maxInteger] at bounds
        refine Value.inRange_iff.mpr ?_
        simp only [Value.minInt, Value.maxInt]
        omega
      exact ⟨.literal (.int (-n)), fun table => rfl,
        (Machine.alike_neg_int inRange).trans (alike.unary .neg)⟩
  | float span' x =>
      obtain ⟨e', lowers, alike⟩ := inner
      cases lowers []
      exact ⟨.literal (.float (-x)), fun table => rfl,
        (Machine.alike_neg_float x).trans (alike.unary .neg)⟩
  | _ => exact inner.unary .neg

end Denotes

/-- Joins a tree to the right end of a chain of joins, as `a <> b <> c` is read. -/
def attach : Expr → Expr → Expr
  | .binary span (.strict .concat) left right, last =>
      .binary span (.strict .concat) left (attach right last)
  | t, last => .binary .synthetic (.strict .concat) t last

/-- A chain of joins stands for the same value from whichever end it is built. -/
theorem Denotes.attach {names : Names} {t last : Expr} {e₁ e₂ : Core.Expr}
    (first : Denotes names t e₁) (second : Denotes names last e₂) :
    Denotes names (attach t last) (.binary (.strict .concat) e₁ e₂) := by
  fun_induction Lowering.attach t last generalizing e₁ with
  | case1 span left right last ih =>
      obtain ⟨e', lowers, alike⟩ := first
      obtain ⟨e₁', e₂', rfl, lowersLeft, lowersRight⟩ := lowers.operands
      have rest := ih lowersRight.denotes second
      refine (lowersLeft.denotes.binary _ rest).trans ?_
      exact (Machine.alike_concat e₁' e₂' e₂).symm.trans (alike.binary _ (.refl e₂))
  | case2 => exact first.binary _ second

end Lowering
end Clausal
