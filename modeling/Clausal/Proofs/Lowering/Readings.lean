import Mathlib.Data.List.Forall2
import Clausal.Proofs.Meaning
import Clausal.Proofs.Outcome
import Clausal.Spec.Function

/-!
# Two readings of a tree

The reference interpreter and the lowering each read constants, clauses, annotations and types off
the tree in their own way.  Here the two readings are compared, one thing after the other:

* constants and names that are not bound (`constant?_eq`, `isBlank_eq`);
* clauses (`isClauseList_eq`, `enter?_of_shape`);
* annotations (`default?_eq`, `requested?_eq`);
* the base types and the modules that written types stand for (`baseOf?_eq`, `moduleOf?_eq`).
-/

namespace Clausal
namespace Lowering

open Clausal.Meaning (Env Site)
open Outcome

/-! ## Constants -/

theorem isBlank_eq (name : String) : Meaning.isBlank name = isWildcard name := by
  unfold Meaning.isBlank isWildcard
  split
  next rest begins => simp [begins]
  next other =>
    -- A first character that is no underscore, or none at all.
    cases written : name.toList with
    | nil => rfl
    | cons c rest =>
        have differs : c ≠ '_' := by
          rintro rfl
          exact other rest written
        simp [differs]

/-- The reference interpreter and the lowering take the same expressions for constants, of the same
values. -/
theorem constant?_eq (e : Surface.Expr) :
    Meaning.constant? e = (literal? e).map Core.Literal.toValue := by
  cases e with
  | unary span op operand =>
      cases op with
      | neg => cases operand <;> rfl
      | _ => rfl
  | _ => rfl

theorem constant?_of_literal? {e : Surface.Expr} {literal : Core.Literal}
    (h : literal? e = some literal) : Meaning.constant? e = some literal.toValue := by
  rw [constant?_eq, h, Option.map_some]

/-! ## Clauses -/

theorem isSome_clauseShape? (entry : Surface.Stmt) :
    (clauseShape? entry).isSome = Meaning.isClause entry := by
  cases entry with
  | bind => rfl
  | expr e =>
      cases e with
      | clause span head body =>
          cases head with
          | paren => rfl
          | guarded span subject guard => cases subject <;> rfl
          | _ => rfl
      | _ => rfl

/-- The clauses of a body follow its entries. -/
theorem clauseShapes?_eq_some {body : List Surface.Stmt} {shapes : List ClauseShape}
    (h : clauseShapes? body = some shapes) :
    body ≠ [] ∧ List.Forall₂ (fun entry shape => clauseShape? entry = some shape) body shapes := by
  unfold clauseShapes? at h
  split at h
  next => cases h
  next filled =>
    refine ⟨by simpa using filled, ?_⟩
    clear filled
    induction body generalizing shapes with
    | nil =>
        cases h
        exact .nil
    | cons entry rest ih =>
        rw [List.mapM_cons] at h
        rcases Option.bind_eq_some_iff.mp h with ⟨shape, here, h⟩
        rcases Option.bind_eq_some_iff.mp h with ⟨others, there, h⟩
        cases h
        exact .cons here (ih there)

theorem isSome_mapM_clauseShape? (body : List Surface.Stmt) :
    (body.mapM clauseShape?).isSome = body.all Meaning.isClause := by
  induction body with
  | nil => rfl
  | cons entry rest ih =>
      rw [List.mapM_cons, List.all_cons, ← isSome_clauseShape?, ← ih]
      cases clauseShape? entry with
      | none => rfl
      | some shape => cases rest.mapM clauseShape? <;> rfl

/-- The same bodies are taken for lists of clauses. -/
theorem isClauseList_eq (body : List Surface.Stmt) :
    Meaning.isClauseList body = (clauseShapes? body).isSome := by
  unfold Meaning.isClauseList clauseShapes?
  cases body.isEmpty with
  | true => rfl
  | false => simpa using (isSome_mapM_clauseShape? body).symm

/-- The environment that the head and the guard of a clause let its body run in, if they let it. -/
def enterShape? (site : Site) (args : List Value) (shape : ClauseShape) : Option Env :=
  match Meaning.matchAll? shape.patterns args [] with
  | some env =>
      match shape.guard with
      | none => some env
      | some guard => if Meaning.holds site env guard then some env else none
  | none => none

/-- An entry of a body is entered as the clause that the lowering takes it for. -/
theorem enter?_of_shape {entry : Surface.Stmt} {shape : ClauseShape}
    (is : clauseShape? entry = some shape) (site : Site) (args : List Value) :
    Meaning.enter? site args entry
      = (enterShape? site args shape).map fun env => (env, shape.body) := by
  unfold clauseShape? at is
  split at is
  next span _ patterns body =>
    cases is
    simp only [Meaning.enter?, enterShape?]
    cases Meaning.matchAll? patterns args [] <;> rfl
  next span _ _ patterns guard body =>
    cases is
    simp only [Meaning.enter?, enterShape?]
    cases Meaning.matchAll? patterns args [] with
    | none => rfl
    | some env => cases held : Meaning.holds site env guard <;> simp [held]
  next => cases is

/-! ## Annotations -/

/-- The lowering takes an annotation apart at the same places. -/
theorem describe_eq (param : Surface.Param) :
    describe param.type =
      { type := (splitMode (Meaning.annotation param)).1
        default := Meaning.default? param
        mode := (splitMode (Meaning.annotation param)).2 } := by
  rcases param with ⟨_, type, _⟩
  cases type <;> rfl

theorem default?_eq (param : Surface.Param) :
    Meaning.default? param = (describe param.type).default := by
  rw [describe_eq]

/-- The name of the request that a mode stands for. -/
def requestName? : ParamMode → Option String
  | .none => none
  | .guard => some "guard"
  | .validate => some "validate"

/-- An annotation makes the request of its mode, for its type, and no other. -/
theorem requested?_eq (mode : ParamMode) {request : String}
    (named : requestName? mode = some request) (param : Surface.Param) :
    Meaning.requested? request param
      = if (describe param.type).mode = mode then some (describe param.type).type else none := by
  rw [describe_eq]
  unfold Meaning.requested?
  generalize Meaning.annotation param = e
  fun_cases splitMode e
  case case1 inner | case2 inner => cases mode <;> cases named <;> rfl
  case case3 noGuard noValidate =>
    have unasked : ParamMode.none ≠ mode := by
      rintro rfl
      cases named
    rw [if_neg unasked]
    split
    next name type =>
      have differs : name ≠ request := by
        rintro rfl
        cases mode with
        | none => cases named
        | guard =>
            cases named
            exact noGuard _ _ _ rfl
        | validate =>
            cases named
            exact noValidate _ _ _ rfl
      rw [if_neg (by simpa using differs)]
    next => rfl

/-! ## Types -/

/-- The type variables of a function. -/
def typeVars (written : List Surface.Constraint) : List String := written.map (·.name)

theorem traverse_forall₂ {α β : Type} {f : α → Except CompileError β} {as : List α} {bs : List β}
    (h : traverse f as = .ok bs) : List.Forall₂ (fun a b => f a = .ok b) as bs := by
  induction as generalizing bs with
  | nil =>
      cases h
      exact .nil
  | cons a as ih =>
      simp only [traverse] at h
      split at h
      next => cases h
      next b here =>
        rcases map_eq_ok.mp h with ⟨rest, there, rfl⟩
        exact .cons here (ih there)

/-- The ways in which a type is written, beside some constraints: as a bare name that is a variable,
`self`, a base type or a module, or as a path. -/
inductive WrittenType (written : List Surface.Constraint) : Surface.Expr → TypeExpr → Prop where
  | var {span name c} (constrained : Meaning.constraint? written name = some c) :
      WrittenType written (.ident span name) (.var name)
  | self {span} (free : Meaning.constraint? written "self" = none) :
      WrittenType written (.ident span "self") .selfType
  | base {span name base} (free : Meaning.constraint? written name = none)
      (other : (name == "self") = false) (known : BaseType.ofName? name = some base) :
      WrittenType written (.ident span name) (.base base)
  | module {span name} (free : Meaning.constraint? written name = none)
      (other : (name == "self") = false) (unknown : BaseType.ofName? name = none) :
      WrittenType written (.ident span name) (.external name)
  | path {e path} (dotted : e.ident? = none) (read : e.path? = some path) :
      WrittenType written e (.external path)

section Types

variable {written : List Surface.Constraint} {e : Surface.Expr} {type : TypeExpr}

theorem contains_constraint (written : List Surface.Constraint) (name : String) :
    (typeVars written).contains name = (Meaning.constraint? written name).isSome := by
  unfold typeVars Meaning.constraint?
  induction written with
  | nil => rfl
  | cons c written ih =>
      rw [List.map_cons, List.contains_cons, List.find?_cons, ih, BEq.comm]
      cases c.name == name <;> rfl

/-- What a type is lowered to is as it is written. -/
theorem writtenType_of_lowerType (h : lowerType (typeVars written) e = .ok type) :
    WrittenType written e type := by
  unfold lowerType at h
  cases isName : e.ident? with
  | none =>
      simp only [isName, Option.bind_none] at h
      split at h
      next path read =>
        split at h
        next =>
          cases h
          exact .path isName read
        next => cases h
      next => cases h
  | some name =>
      cases e <;> cases isName
      simp only [Surface.Expr.ident?, Surface.Expr.path?, Option.bind_some, namedType?,
        contains_constraint] at h
      -- A bare name is looked up among the variables first, then among the names of types.
      cases constrained : Meaning.constraint? written name with
      | some c =>
          simp only [constrained, Option.isSome_some, if_true] at h
          cases h
          exact .var constrained
      | none =>
          simp only [constrained, Option.isSome_none, Bool.false_eq_true, if_false] at h
          cases own : name == "self" with
          | true =>
              cases eq_of_beq own
              cases h
              exact .self constrained
          | false =>
              simp only [own, Bool.false_eq_true, if_false] at h
              cases known : BaseType.ofName? name with
              | some base =>
                  simp only [known, Option.map_some] at h
                  cases h
                  exact .base constrained own known
              | none =>
                  simp only [known, Option.map_none] at h
                  split at h
                  next =>
                    cases h
                    exact .module constrained own known
                  next => cases h

theorem lowerConstraint_eq_ok {vars : List String} {c : Surface.Constraint}
    {lowered : TypeConstraint} (h : lowerConstraint vars c = .ok lowered) :
    lowered.name = c.name ∧ lowerType vars c.bound = .ok lowered.bound := by
  rcases map_eq_ok.mp h with ⟨bound, here, rfl⟩
  exact ⟨rfl, here⟩

/-- Constraints and what they are lowered to. -/
def LoweredConstraints (written : List Surface.Constraint) (constraints : List TypeConstraint) :
    Prop :=
  List.Forall₂ (fun c lowered => lowerConstraint (typeVars written) c = .ok lowered) written
    constraints

/-- A variable has the bound that its constraint is lowered to. -/
theorem LoweredConstraints.bound_rel {constraints : List TypeConstraint}
    (h : LoweredConstraints written constraints) (name : String) :
    Option.Rel (fun c bound => lowerType (typeVars written) c.bound = .ok bound)
      (Meaning.constraint? written name) (TypeExpr.boundOf? constraints name) := by
  unfold LoweredConstraints at h
  unfold Meaning.constraint? TypeExpr.boundOf?
  generalize typeVars written = vars at h ⊢
  induction h with
  | nil => exact .none
  | cons head _ ih =>
      rcases lowerConstraint_eq_ok head with ⟨same, bound⟩
      rw [List.find?_cons, List.find?_cons, same]
      split
      next => exact .some bound
      next => exact ih

/-- The base type that a type is. -/
def baseType? : TypeExpr → Option BaseType
  | .base base => some base
  | _ => none

/-- Following bounds leads to the same base type, if to any. -/
theorem LoweredConstraints.baseOf?_eq {constraints : List TypeConstraint}
    (h : LoweredConstraints written constraints)
    (lowered : lowerType (typeVars written) e = .ok type) (steps : Nat) :
    Meaning.baseOf? written steps e
      = (TypeExpr.resolveWithin constraints steps type).bind baseType? := by
  induction steps generalizing e type with
  | zero => rfl
  | succ steps ih =>
      cases writtenType_of_lowerType lowered with
      | @var _ name c constrained =>
          have bounds := h.bound_rel name
          simp only [Meaning.baseOf?, TypeExpr.resolveWithin, constrained] at bounds ⊢
          generalize TypeExpr.boundOf? constraints name = bound at bounds ⊢
          cases bounds with
          | some here => exact ih here
      | self free =>
          simp only [Meaning.baseOf?, free]
          rfl
      | base free _ known =>
          simp only [Meaning.baseOf?, free, known]
          rfl
      | module free _ unknown =>
          simp only [Meaning.baseOf?, free, unknown]
          rfl
      | path dotted =>
          cases e with
          | ident => cases dotted
          | _ => rfl

/-- The module that checks the values of a type, in the module `owner`. -/
def checker? (owner : String) : TypeExpr → Option String
  | .external name => some name
  | .selfType => some owner
  | _ => none

/-- A written type names the module that checks the values of its type. -/
theorem moduleOf?_eq (lowered : lowerType (typeVars written) e = .ok type) (owner : String) :
    Meaning.moduleOf? written owner e = checker? owner type := by
  cases writtenType_of_lowerType lowered with
  | var constrained => simp [Meaning.moduleOf?, constrained, checker?]
  | self free => simp [Meaning.moduleOf?, free, checker?]
  | base free other known => simp [Meaning.moduleOf?, free, other, known, checker?]
  | module free other unknown => simp [Meaning.moduleOf?, free, other, unknown, checker?]
  | path dotted read =>
      cases e with
      | ident => cases dotted
      | _ => exact read

/-! ## Requests -/

variable {f : Surface.FunctionDef} {param : Surface.Param}

/-- A value passes if it is of the base type that a `guard[..]` annotation leads to. -/
theorem passes_eq {constraints : List TypeConstraint}
    (bounds : LoweredConstraints f.constraints constraints)
    (lowered : lowerType (typeVars f.constraints) (describe param.type).type = .ok type)
    (value : Value) :
    Meaning.passes f param value
      = if (describe param.type).mode = .guard then
          match type.resolve? constraints with
          | some (.base base) => Meaning.ofBase base value
          | _ => false
        else true := by
  unfold Meaning.passes
  rw [requested?_eq .guard rfl]
  by_cases asked : (describe param.type).mode = .guard
  · rw [if_pos asked, if_pos asked]
    -- Both readings look at one type more than there are constraints.
    simp only [bounds.baseOf?_eq lowered, bounds.length_eq, TypeExpr.resolve?]
    cases TypeExpr.resolveWithin constraints (constraints.length + 1) type with
    | none => rfl
    | some found => cases found <;> rfl
  · rw [if_neg asked, if_neg asked]

/-- The module that a `validate[..]` annotation asks is that of its type. -/
theorem validator_eq
    (lowered : lowerType (typeVars f.constraints) (describe param.type).type = .ok type)
    (owner : String) :
    (Meaning.requested? "validate" param).bind (Meaning.moduleOf? f.constraints owner)
      = if (describe param.type).mode = .validate then checker? owner type else none := by
  rw [requested?_eq .validate rfl]
  split
  next => exact moduleOf?_eq lowered owner
  next => rfl

end Types

end Lowering
end Clausal
