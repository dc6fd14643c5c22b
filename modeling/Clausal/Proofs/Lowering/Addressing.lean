import Clausal.Proofs.Outcome
import Clausal.Spec.Pattern

/-!
# Addressing: which slot stands for which name

`AddressedExpr names t e c t'` says that in the scope `names`, with the table of bindings `t`, the
core expression `c` is the surface expression `e` with a slot for every name, and that the table is
`t'` afterwards.  The relation follows the forms of the tree and says nothing of the forms that
have no meaning as an expression.  `AddressedPattern` does the same for clause heads, where the
scope itself grows.

Main statements: what lowering gives is addressed (`lowerExpr_addressed`,
`lowerPattern_addressed`), and the table of bindings only grows (`AddressedExpr.grows`).
-/

namespace Clausal
namespace Lowering

open Clausal.Core (Slot Bindings)

/-! ## Scopes -/

/-- Every visible name has a slot below `n`. -/
def Below (names : Names) (n : Nat) : Prop := ∀ entry ∈ names, entry.2 < n

theorem Below.mono {names : Names} {n n' : Nat} (below : Below names n) (le : n ≤ n') :
    Below names n' := by
  intro entry member
  exact Nat.lt_of_lt_of_le (below entry member) le

theorem Below.push {names : Names} {n : Nat} (below : Below names n) (name : String) :
    Below ((name, n) :: names) (n + 1) := by
  intro entry member
  rcases List.mem_cons.mp member with rfl | member
  · exact Nat.lt_succ_self n
  · exact Nat.lt_succ_of_lt (below entry member)

/-! ## Expressions -/

mutual

/-- The scope and the table before an expression, the expression with its code, and the table after
it. -/
inductive AddressedExpr : Names → Bindings → Surface.Expr → Core.Expr → Bindings → Prop where
  | integer {names t span k} : AddressedExpr names t (.integer span k) (.literal (.int k)) t
  | float {names t span x} : AddressedExpr names t (.float span x) (.literal (.float x)) t
  | text {names t span s} : AddressedExpr names t (.text span s) (.literal (.text s)) t
  | atom {names t span a} : AddressedExpr names t (.atom span a) (.literal (.atom a)) t
  | bool {names t span b} : AddressedExpr names t (.bool span b) (.literal (.bool b)) t
  | nil {names t span} : AddressedExpr names t (.nil span) (.literal .nil) t
  | ident {names t span name slot} (found : names.lookup name = some slot) :
      AddressedExpr names t (.ident span name) (.var slot) t
  | unary {names t span op e c t'} (operand : AddressedExpr names t e c t') :
      AddressedExpr names t (.unary span op e) (.unary op c) t'
  | binary {names t span op e₁ e₂ c₁ c₂ t₁ t₂} (left : AddressedExpr names t e₁ c₁ t₁)
      (right : AddressedExpr names t₁ e₂ c₂ t₂) :
      AddressedExpr names t (.binary span op e₁ e₂) (.binary op c₁ c₂) t₂
  -- A callee is no expression: the scope decides what it stands for.
  | call {names t span callee target es cs t'} (resolved : lowerCallee names callee = .ok target)
      (args : AddressedExprs names t es cs t') :
      AddressedExpr names t (.call span callee es) (.call target cs) t'
  | field {names t span e c name t'} (target : AddressedExpr names t e c t') :
      AddressedExpr names t (.field span e name) (.field c name) t'
  | paren {names t span e c t'} (single : AddressedExpr names t e c t') :
      AddressedExpr names t (.paren span [e]) c t'
  | list {names t span es cs t'} (items : AddressedExprs names t es cs t') :
      AddressedExpr names t (.list span es) (.list cs) t'
  | listTail {names t span es e cs c t₁ t₂} (items : AddressedExprs names t es cs t₁)
      (tail : AddressedExpr names t₁ e c t₂) :
      AddressedExpr names t (.listTail span es e) (.listTail cs c) t₂
  | tuple {names t span es cs t'} (items : AddressedExprs names t es cs t') :
      AddressedExpr names t (.tuple span es) (.tuple cs) t'
  | map {names t span es cs t'} (entries : AddressedEntries names t es cs t') :
      AddressedExpr names t (.map span es) (.map cs) t'
  -- Both branches see the scope of the whole; what one binds is not seen in the other, nor after.
  | cond {names t span e c s₁ s₂ b₁ b₂ t₁ t₂ t₃} (condition : AddressedExpr names t e c t₁)
      (thenBlock : AddressedStmts names t₁ s₁ b₁ t₂)
      (elseBlock : AddressedStmts names t₂ s₂ b₂ t₃) :
      AddressedExpr names t (.cond span e s₁ s₂) (.cond c (orNil b₁) (orNil b₂)) t₃

inductive AddressedExprs : Names → Bindings → List Surface.Expr → List Core.Expr → Bindings →
    Prop where
  | nil {names t} : AddressedExprs names t [] [] t
  | cons {names t e es c cs t₁ t₂} (head : AddressedExpr names t e c t₁)
      (tail : AddressedExprs names t₁ es cs t₂) : AddressedExprs names t (e :: es) (c :: cs) t₂

inductive AddressedEntries : Names → Bindings → List (Surface.Expr × Surface.Expr) →
    List (Core.Expr × Core.Expr) → Bindings → Prop where
  | nil {names t} : AddressedEntries names t [] [] t
  | cons {names t k v es ck cv cs t₁ t₂ t₃} (key : AddressedExpr names t k ck t₁)
      (value : AddressedExpr names t₁ v cv t₂) (tail : AddressedEntries names t₂ es cs t₃) :
      AddressedEntries names t ((k, v) :: es) ((ck, cv) :: cs) t₃

/-- The value of a binding does not see the name it is given; the statements after it do. -/
inductive AddressedStmts : Names → Bindings → List Surface.Stmt → Core.Block → Bindings →
    Prop where
  | nil {names t} : AddressedStmts names t [] [] t
  -- The new slot is the next one of the table, also when the name had a slot before.
  | bind {names t span name e stmts c block t₁ t₂} (value : AddressedExpr names t e c t₁)
      (rest : AddressedStmts ((name, t₁.length) :: names) (t₁ ++ [⟨name, .bound⟩]) stmts block t₂) :
      AddressedStmts names t (.bind span name e :: stmts) (.bind t₁.length c :: block) t₂
  | expr {names t e stmts c block t₁ t₂} (value : AddressedExpr names t e c t₁)
      (rest : AddressedStmts names t₁ stmts block t₂) :
      AddressedStmts names t (.expr e :: stmts) (.expr c :: block) t₂

end

mutual

/-- The table only grows. -/
theorem AddressedExpr.grows {names : Names} {t t' : Bindings} {e : Surface.Expr} {c : Core.Expr}
    (h : AddressedExpr names t e c t') : t <+: t' := by
  cases h with
  | integer | float | text | atom | bool | nil | ident => exact List.prefix_refl t
  | unary operand => exact operand.grows
  | binary left right => exact left.grows.trans right.grows
  | call _ args => exact args.grows
  | field target => exact target.grows
  | paren single => exact single.grows
  | list items => exact items.grows
  | listTail items tail => exact items.grows.trans tail.grows
  | tuple items => exact items.grows
  | map entries => exact entries.grows
  | cond condition thenBlock elseBlock =>
      exact condition.grows.trans (thenBlock.grows.trans elseBlock.grows)

theorem AddressedExprs.grows {names : Names} {t t' : Bindings} {es : List Surface.Expr}
    {cs : List Core.Expr} (h : AddressedExprs names t es cs t') : t <+: t' := by
  cases h with
  | nil => exact List.prefix_refl t
  | cons head tail => exact head.grows.trans tail.grows

theorem AddressedEntries.grows {names : Names} {t t' : Bindings}
    {es : List (Surface.Expr × Surface.Expr)} {cs : List (Core.Expr × Core.Expr)}
    (h : AddressedEntries names t es cs t') : t <+: t' := by
  cases h with
  | nil => exact List.prefix_refl t
  | cons key value tail => exact key.grows.trans (value.grows.trans tail.grows)

theorem AddressedStmts.grows {names : Names} {t t' : Bindings} {stmts : List Surface.Stmt}
    {block : Core.Block} (h : AddressedStmts names t stmts block t') : t <+: t' := by
  cases h with
  | nil => exact List.prefix_refl t
  | bind value rest => exact value.grows.trans ((List.prefix_append _ _).trans rest.grows)
  | expr value rest => exact value.grows.trans rest.grows

end

theorem AddressedExpr.le {names : Names} {t t' : Bindings} {e : Surface.Expr} {c : Core.Expr}
    (h : AddressedExpr names t e c t') : t.length ≤ t'.length := h.grows.length_le

theorem AddressedExprs.le {names : Names} {t t' : Bindings} {es : List Surface.Expr}
    {cs : List Core.Expr} (h : AddressedExprs names t es cs t') : t.length ≤ t'.length :=
  h.grows.length_le

theorem AddressedStmts.le {names : Names} {t t' : Bindings} {stmts : List Surface.Stmt}
    {block : Core.Block} (h : AddressedStmts names t stmts block t') : t.length ≤ t'.length :=
  h.grows.length_le

/-! ## Clause heads -/

mutual

/-- The scope and the table before a pattern, the pattern, and both after it. -/
inductive AddressedPattern : Names → Bindings → Surface.Expr → Core.Pattern → Names → Bindings →
    Prop where
  | wildcard {names t span name} (blank : isWildcard name = true) :
      AddressedPattern names t (.ident span name) .wildcard names t
  | same {names t span name slot} (named : isWildcard name = false)
      (found : names.lookup name = some slot) :
      AddressedPattern names t (.ident span name) (.same slot) names t
  | bind {names t span name} (named : isWildcard name = false)
      (fresh : names.lookup name = none) :
      AddressedPattern names t (.ident span name) (.bind t.length) ((name, t.length) :: names)
        (t ++ [⟨name, .pattern⟩])
  | paren {names t span e p names' t'} (single : AddressedPattern names t e p names' t') :
      AddressedPattern names t (.paren span [e]) p names' t'
  | tuple {names t span es ps names' t'} (items : AddressedPatterns names t es ps names' t') :
      AddressedPattern names t (.tuple span es) (.tuple ps) names' t'
  | list {names t span es ps names' t'} (items : AddressedPatterns names t es ps names' t') :
      AddressedPattern names t (.list span es) (.list ps) names' t'
  | listTail {names t span es e ps p names₁ t₁ names₂ t₂}
      (items : AddressedPatterns names t es ps names₁ t₁)
      (tail : AddressedPattern names₁ t₁ e p names₂ t₂) :
      AddressedPattern names t (.listTail span es e) (.listTail ps p) names₂ t₂
  | map {names t span es ps names' t'}
      (entries : AddressedPatternEntries names t es ps names' t') :
      AddressedPattern names t (.map span es) (.map ps) names' t'
  | literal {names t e value} (constant : literal? e = some value) :
      AddressedPattern names t e (.literal value) names t

inductive AddressedPatterns : Names → Bindings → List Surface.Expr → List Core.Pattern → Names →
    Bindings → Prop where
  | nil {names t} : AddressedPatterns names t [] [] names t
  | cons {names t e es p ps names₁ t₁ names₂ t₂}
      (head : AddressedPattern names t e p names₁ t₁)
      (tail : AddressedPatterns names₁ t₁ es ps names₂ t₂) :
      AddressedPatterns names t (e :: es) (p :: ps) names₂ t₂

inductive AddressedPatternEntries : Names → Bindings → List (Surface.Expr × Surface.Expr) →
    List (Core.Literal × Core.Pattern) → Names → Bindings → Prop where
  | nil {names t} : AddressedPatternEntries names t [] [] names t
  | cons {names t k key e es p ps names₁ t₁ names₂ t₂} (constant : literal? k = some key)
      (head : AddressedPattern names t e p names₁ t₁)
      (tail : AddressedPatternEntries names₁ t₁ es ps names₂ t₂) :
      AddressedPatternEntries names t ((k, e) :: es) ((key, p) :: ps) names₂ t₂

end

mutual

theorem AddressedPattern.grows {names names' : Names} {t t' : Bindings} {e : Surface.Expr}
    {p : Core.Pattern} (h : AddressedPattern names t e p names' t') : t <+: t' := by
  cases h with
  | wildcard | same | literal => exact List.prefix_refl t
  | bind => exact List.prefix_append _ _
  | paren single => exact single.grows
  | tuple items => exact items.grows
  | list items => exact items.grows
  | listTail items tail => exact items.grows.trans tail.grows
  | map entries => exact entries.grows

theorem AddressedPatterns.grows {names names' : Names} {t t' : Bindings} {es : List Surface.Expr}
    {ps : List Core.Pattern} (h : AddressedPatterns names t es ps names' t') : t <+: t' := by
  cases h with
  | nil => exact List.prefix_refl t
  | cons head tail => exact head.grows.trans tail.grows

theorem AddressedPatternEntries.grows {names names' : Names} {t t' : Bindings}
    {es : List (Surface.Expr × Surface.Expr)} {ps : List (Core.Literal × Core.Pattern)}
    (h : AddressedPatternEntries names t es ps names' t') : t <+: t' := by
  cases h with
  | nil => exact List.prefix_refl t
  | cons _ head tail => exact head.grows.trans tail.grows

end

mutual

/-- A head gives its names slots of the table. -/
theorem AddressedPattern.keepsBelow {names names' : Names} {t t' : Bindings} {e : Surface.Expr}
    {p : Core.Pattern} (h : AddressedPattern names t e p names' t') (below : Below names t.length) :
    Below names' t'.length := by
  cases h with
  | wildcard | same | literal => exact below
  | bind =>
      -- The one case that adds a name, with the slot that the table gains at the same time.
      simpa using below.push _
  | paren single => exact single.keepsBelow below
  | tuple items => exact items.keepsBelow below
  | list items => exact items.keepsBelow below
  | listTail items tail => exact tail.keepsBelow (items.keepsBelow below)
  | map entries => exact entries.keepsBelow below

theorem AddressedPatterns.keepsBelow {names names' : Names} {t t' : Bindings}
    {es : List Surface.Expr} {ps : List Core.Pattern}
    (h : AddressedPatterns names t es ps names' t') (below : Below names t.length) :
    Below names' t'.length := by
  cases h with
  | nil => exact below
  | cons head tail => exact tail.keepsBelow (head.keepsBelow below)

theorem AddressedPatternEntries.keepsBelow {names names' : Names} {t t' : Bindings}
    {es : List (Surface.Expr × Surface.Expr)} {ps : List (Core.Literal × Core.Pattern)}
    (h : AddressedPatternEntries names t es ps names' t') (below : Below names t.length) :
    Below names' t'.length := by
  cases h with
  | nil => exact below
  | cons _ head tail => exact tail.keepsBelow (head.keepsBelow below)

end

/-! ## Lowering gives addressed code -/

section Lowered

open Outcome

variable {names : Names} {b b' : Bindings}

theorem run_declare {name : String} {kind : Core.BindingKind} {slot : Slot}
    (h : declare name kind b = .ok (slot, b')) :
    slot = b.length ∧ b' = b ++ [⟨name, kind⟩] := by
  cases h
  exact ⟨rfl, rfl⟩

-- Each form is taken apart into the steps of its lowering, and the parts are put together again.
-- Forms that lowering refuses have no constructor above, and need none.
mutual

theorem lowerExpr_addressed (e : Surface.Expr) {names : Names} {b b' : Bindings}
    {c : Core.Expr} (h : lowerExpr names e b = .ok (c, b')) :
    AddressedExpr names b e c b' := by
  -- The parts are lowered in order, each from the table that the one before it leaves.
  cases e with
  | integer span n =>
      cases h
      exact .integer
  | float span x =>
      cases h
      exact .float
  | text span s =>
      cases h
      exact .text
  | atom span a =>
      cases h
      exact .atom
  | bool span b =>
      cases h
      exact .bool
  | nil span =>
      cases h
      exact .nil
  | ident span name =>
      cases found : names.lookup name with
      | some slot =>
          simp only [lowerExpr, found] at h
          cases h
          exact .ident found
      | none =>
          simp only [lowerExpr, found] at h
          exact absurd h run_throw_ne_ok
  | unary span op operand =>
      simp only [lowerExpr] at h
      rcases run_bind_eq_ok.mp h with ⟨c₁, b₁, h₁, hr⟩
      cases hr
      exact .unary (lowerExpr_addressed operand h₁)
  | binary span op left right =>
      simp only [lowerExpr] at h
      rcases run_bind_eq_ok.mp h with ⟨c₁, b₁, h₁, h⟩
      rcases run_bind_eq_ok.mp h with ⟨c₂, b₂, h₂, hr⟩
      cases hr
      exact .binary (lowerExpr_addressed left h₁) (lowerExpr_addressed right h₂)
  | call span callee args =>
      simp only [lowerExpr] at h
      rcases run_bind_eq_ok.mp h with ⟨target, b₁, h₁, h⟩
      rcases run_bind_eq_ok.mp h with ⟨cs, b₂, h₂, hr⟩
      cases hr
      cases resolved : lowerCallee names callee with
      | error e =>
          rw [resolved] at h₁
          cases h₁
      | ok found =>
          rw [resolved] at h₁
          cases h₁
          exact .call resolved (lowerExprs_addressed args h₂)
  | field span target name =>
      simp only [lowerExpr] at h
      by_cases path : isModulePath names target = true
      · -- A path into a module is refused, since a module is no value.
        rw [if_pos path] at h
        exact absurd h run_throw_ne_ok
      · rw [if_neg path] at h
        rcases run_bind_eq_ok.mp h with ⟨c₁, b₁, h₁, hr⟩
        cases hr
        exact .field (lowerExpr_addressed target h₁)
  | paren span items =>
      match items with
      | [single] =>
          simp only [lowerExpr] at h
          exact .paren (lowerExpr_addressed single h)
      | [] => exact absurd h run_throw_ne_ok
      | _ :: _ :: _ => exact absurd h run_throw_ne_ok
  | list span items =>
      simp only [lowerExpr] at h
      rcases run_bind_eq_ok.mp h with ⟨cs, b₁, h₁, hr⟩
      cases hr
      exact .list (lowerExprs_addressed items h₁)
  | listTail span items tail =>
      simp only [lowerExpr] at h
      rcases run_bind_eq_ok.mp h with ⟨cs, b₁, h₁, h⟩
      rcases run_bind_eq_ok.mp h with ⟨c₂, b₂, h₂, hr⟩
      cases hr
      exact .listTail (lowerExprs_addressed items h₁) (lowerExpr_addressed tail h₂)
  | tuple span items =>
      simp only [lowerExpr] at h
      rcases run_bind_eq_ok.mp h with ⟨cs, b₁, h₁, hr⟩
      cases hr
      exact .tuple (lowerExprs_addressed items h₁)
  | map span entries =>
      simp only [lowerExpr] at h
      rcases run_bind_eq_ok.mp h with ⟨cs, b₁, h₁, hr⟩
      cases hr
      exact .map (lowerEntries_addressed entries h₁)
  | cond span condition thenBlock elseBlock =>
      simp only [lowerExpr] at h
      rcases run_bind_eq_ok.mp h with ⟨c₁, b₁, h₁, h⟩
      rcases run_bind_eq_ok.mp h with ⟨s₁, b₂, h₂, h⟩
      rcases run_bind_eq_ok.mp h with ⟨s₂, b₃, h₃, hr⟩
      cases hr
      exact .cond (lowerExpr_addressed condition h₁) (lowerStmts_addressed thenBlock h₂)
        (lowerStmts_addressed elseBlock h₃)
  | clause span head body => exact absurd h run_throw_ne_ok
  | guarded span subject guard => exact absurd h run_throw_ne_ok
  | defaulted span inner value => exact absurd h run_throw_ne_ok
  | index span target args => exact absurd h run_throw_ne_ok

theorem lowerExprs_addressed (es : List Surface.Expr) {names : Names} {b b' : Bindings}
    {cs : List Core.Expr} (h : lowerExprs names es b = .ok (cs, b')) :
    AddressedExprs names b es cs b' := by
  cases es with
  | nil =>
      cases h
      exact .nil
  | cons e es =>
      simp only [lowerExprs] at h
      rcases run_bind_eq_ok.mp h with ⟨c₁, b₁, h₁, h⟩
      rcases run_bind_eq_ok.mp h with ⟨cs, b₂, h₂, hr⟩
      cases hr
      exact .cons (lowerExpr_addressed e h₁) (lowerExprs_addressed es h₂)

theorem lowerEntries_addressed (es : List (Surface.Expr × Surface.Expr)) {names : Names}
    {b b' : Bindings} {cs : List (Core.Expr × Core.Expr)}
    (h : lowerEntries names es b = .ok (cs, b')) :
    AddressedEntries names b es cs b' := by
  match es with
  | [] =>
      cases h
      exact .nil
  | (k, v) :: rest =>
      simp only [lowerEntries] at h
      rcases run_bind_eq_ok.mp h with ⟨ck, b₁, h₁, h⟩
      rcases run_bind_eq_ok.mp h with ⟨cv, b₂, h₂, h⟩
      rcases run_bind_eq_ok.mp h with ⟨cs, b₃, h₃, hr⟩
      cases hr
      exact .cons (lowerExpr_addressed k h₁) (lowerExpr_addressed v h₂)
        (lowerEntries_addressed rest h₃)

theorem lowerStmts_addressed (stmts : List Surface.Stmt) {names : Names} {b b' : Bindings}
    {block : Core.Block} (h : lowerStmts names stmts b = .ok (block, b')) :
    AddressedStmts names b stmts block b' := by
  match stmts with
  | [] =>
      cases h
      exact .nil
  | .bind span name value :: rest =>
      simp only [lowerStmts] at h
      rcases run_bind_eq_ok.mp h with ⟨c, b₁, h₁, h⟩
      by_cases wildcard : isWildcard name = true
      · rw [if_pos wildcard] at h
        exact absurd h run_throw_ne_ok
      · rw [if_neg wildcard] at h
        rcases run_bind_eq_ok.mp h with ⟨slot, b₂, hd, h⟩
        rcases run_bind_eq_ok.mp h with ⟨block, b₃, h₂, hr⟩
        rcases run_declare hd with ⟨rfl, rfl⟩
        cases hr
        exact .bind (lowerExpr_addressed value h₁) (lowerStmts_addressed rest h₂)
  | .expr value :: rest =>
      simp only [lowerStmts] at h
      rcases run_bind_eq_ok.mp h with ⟨c, b₁, h₁, h⟩
      rcases run_bind_eq_ok.mp h with ⟨block, b₂, h₂, hr⟩
      cases hr
      exact .expr (lowerExpr_addressed value h₁) (lowerStmts_addressed rest h₂)

end

theorem lowerName_addressed {span : Span} {name : String} {s s' : HeadState} {p : Core.Pattern}
    (h : lowerName name s = .ok (p, s')) :
    AddressedPattern s.names s.bindings (.ident span name) p s'.names s'.bindings := by
  cases blank : isWildcard name with
  | true =>
      simp only [lowerName, blank, if_true] at h
      cases h
      exact .wildcard blank
  | false =>
      simp only [lowerName, blank, Bool.false_eq_true, if_false] at h
      rcases run_bind_eq_ok.mp h with ⟨state, s₁, hg, h⟩
      cases hg
      -- A name that the head bound before has to match again; a new name takes the next slot.
      cases found : s.names.lookup name with
      | some slot =>
          simp only [found] at h
          cases h
          exact .same blank found
      | none =>
          simp only [found] at h
          cases h
          exact .bind blank found

theorem lowerLiteral_addressed {e : Surface.Expr} {s s' : HeadState} {p : Core.Pattern}
    (h : lowerLiteral e s = .ok (p, s')) :
    AddressedPattern s.names s.bindings e p s'.names s'.bindings := by
  cases constant : literal? e with
  | some value =>
      simp only [lowerLiteral, constant] at h
      cases h
      exact .literal constant
  | none =>
      simp only [lowerLiteral, constant] at h
      exact absurd h run_throw_ne_ok

mutual

theorem lowerPattern_addressed (e : Surface.Expr) {s s' : HeadState} {p : Core.Pattern}
    (h : lowerPattern e s = .ok (p, s')) :
    AddressedPattern s.names s.bindings e p s'.names s'.bindings := by
  cases e with
  | ident span name =>
      simp only [lowerPattern] at h
      exact lowerName_addressed h
  | paren span items =>
      match items with
      | [single] =>
          simp only [lowerPattern] at h
          exact .paren (lowerPattern_addressed single h)
      | [] => exact lowerLiteral_addressed h
      | _ :: _ :: _ => exact lowerLiteral_addressed h
  | tuple span items =>
      simp only [lowerPattern] at h
      rcases run_bind_eq_ok.mp h with ⟨ps, s₁, h₁, hr⟩
      cases hr
      exact .tuple (lowerPatterns_addressed items h₁)
  | list span items =>
      simp only [lowerPattern] at h
      rcases run_bind_eq_ok.mp h with ⟨ps, s₁, h₁, hr⟩
      cases hr
      exact .list (lowerPatterns_addressed items h₁)
  | listTail span items tail =>
      simp only [lowerPattern] at h
      rcases run_bind_eq_ok.mp h with ⟨ps, s₁, h₁, h⟩
      rcases run_bind_eq_ok.mp h with ⟨p, s₂, h₂, hr⟩
      cases hr
      exact .listTail (lowerPatterns_addressed items h₁) (lowerPattern_addressed tail h₂)
  | map span entries =>
      simp only [lowerPattern] at h
      rcases run_bind_eq_ok.mp h with ⟨ps, s₁, h₁, hr⟩
      cases hr
      exact .map (lowerPatternEntries_addressed entries h₁)
  | integer | float | text | atom | bool | nil | unary | binary | clause | guarded | defaulted
  | call | index | field | cond =>
      exact lowerLiteral_addressed h

theorem lowerPatterns_addressed (es : List Surface.Expr) {s s' : HeadState}
    {ps : List Core.Pattern} (h : lowerPatterns es s = .ok (ps, s')) :
    AddressedPatterns s.names s.bindings es ps s'.names s'.bindings := by
  cases es with
  | nil =>
      cases h
      exact .nil
  | cons e es =>
      simp only [lowerPatterns] at h
      rcases run_bind_eq_ok.mp h with ⟨p, s₁, h₁, h⟩
      rcases run_bind_eq_ok.mp h with ⟨ps, s₂, h₂, hr⟩
      cases hr
      exact .cons (lowerPattern_addressed e h₁) (lowerPatterns_addressed es h₂)

theorem lowerPatternEntries_addressed (es : List (Surface.Expr × Surface.Expr))
    {s s' : HeadState} {ps : List (Core.Literal × Core.Pattern)}
    (h : lowerPatternEntries es s = .ok (ps, s')) :
    AddressedPatternEntries s.names s.bindings es ps s'.names s'.bindings := by
  match es with
  | [] =>
      cases h
      exact .nil
  | (k, e) :: rest =>
      cases constant : literal? k with
      | none =>
          simp only [lowerPatternEntries, constant] at h
          exact absurd h run_throw_ne_ok
      | some key =>
          simp only [lowerPatternEntries, constant] at h
          rcases run_bind_eq_ok.mp h with ⟨p, s₁, h₁, h⟩
          rcases run_bind_eq_ok.mp h with ⟨ps, s₂, h₂, hr⟩
          cases hr
          exact .cons constant (lowerPattern_addressed e h₁)
            (lowerPatternEntries_addressed rest h₂)

end

end Lowered

end Lowering
end Clausal
