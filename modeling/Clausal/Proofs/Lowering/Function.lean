import Clausal.Proofs.Lowering.Addressing
import Clausal.Proofs.Lowering.Readings

/-!
# Addressing of functions

`AddressedFunction f spec` says how the parts of a function share one table of bindings: the
parameters take its first slots, then come the bindings inside the defaults, then those of the body
or of the clauses, one after the other.  Main statement: what `lowerFunction` accepts is addressed
(`lowerFunction_addressed`).
-/

namespace Clausal
namespace Lowering

open Clausal.Core (Slot Bindings)
open Clausal.Meaning (default?)
open Outcome

/-! ## Parts -/

/-- An expression that may be missing. -/
inductive AddressedOption (names : Names) (t : Bindings) :
    Option Surface.Expr → Option Core.Expr → Bindings → Prop where
  | none : AddressedOption names t none none t
  | some {e c t'} (code : AddressedExpr names t e c t') :
      AddressedOption names t (some e) (some c) t'

/-- A clause: its head starts from no names, and its guard and body see what the head binds. -/
structure AddressedClause (t : Bindings) (shape : ClauseShape) (clause : ClauseSpec)
    (t' : Bindings) : Prop where
  intro ::
  exists_parts : ∃ names t₁ t₂ body,
    AddressedPatterns [] t shape.patterns clause.patterns names t₁ ∧
      AddressedOption names t₁ shape.guard clause.guard t₂ ∧
      AddressedExpr names t₂ shape.body body t' ∧ clause.body = [.expr body]

inductive AddressedClauses : Bindings → List ClauseShape → List ClauseSpec → Bindings → Prop where
  | nil {t} : AddressedClauses t [] [] t
  | cons {t shape shapes clause clauses t₁ t₂} (head : AddressedClause t shape clause t₁)
      (tail : AddressedClauses t₁ shapes clauses t₂) :
      AddressedClauses t (shape :: shapes) (clause :: clauses) t₂

/-- Parameters from a position on: each has the slot of its position, and its default starts from
no names. -/
inductive AddressedParams (f : Surface.FunctionDef) :
    (position : Nat) → Bindings → List Surface.Param → List ParamSpec → Bindings → Prop where
  | nil {position t} : AddressedParams f position t [] [] t
  | cons {position t param params spec specs t₁ t₂} (name : spec.name = param.name)
      (slot : spec.slot = position)
      (type : lowerType (typeVars f.constraints) (describe param.type).type = .ok spec.type)
      (mode : spec.mode = (describe param.type).mode)
      (default : AddressedOption [] t (default? param) spec.default t₁)
      (rest : AddressedParams f (position + 1) t₁ params specs t₂) :
      AddressedParams f position t (param :: params) (spec :: specs) t₂

inductive AddressedBody (f : Surface.FunctionDef) (names : Names) (t : Bindings) :
    FunctionBody → Bindings → Prop where
  -- A single body starts from the names of the parameters, and clauses from none.
  | single {block t'} (shape : clauseShapes? f.body = none)
      (code : AddressedStmts names t f.body block t') :
      AddressedBody f names t (.single (orNil block)) t'
  | clauses {shapes clauses t'} (shape : clauseShapes? f.body = some shapes)
      (code : AddressedClauses t shapes clauses t') :
      AddressedBody f names t (.clauses clauses) t'

/-- A function: parameters, defaults and body over one table. -/
structure AddressedFunction (f : Surface.FunctionDef) (spec : FunctionSpec) : Prop where
  name : spec.name = f.name
  constraints : LoweredConstraints f.constraints spec.constraints
  code : ∃ t, AddressedParams f 0 (paramBindings 0 spec.params) f.params spec.params t ∧
    AddressedBody f (paramNames spec.params) t spec.body spec.bindings

/-! ## Growth of the table -/

theorem AddressedOption.grows {names : Names} {t t' : Bindings} {e : Option Surface.Expr}
    {c : Option Core.Expr} (h : AddressedOption names t e c t') : t <+: t' := by
  cases h with
  | none => exact List.prefix_refl t
  | some code => exact code.grows

theorem AddressedClause.grows {t t' : Bindings} {shape : ClauseShape} {clause : ClauseSpec}
    (h : AddressedClause t shape clause t') : t <+: t' := by
  rcases h.exists_parts with ⟨names, t₁, t₂, body, patterns, guard, code, _⟩
  exact patterns.grows.trans (guard.grows.trans code.grows)

theorem AddressedClauses.grows {t t' : Bindings} {shapes : List ClauseShape}
    {clauses : List ClauseSpec} (h : AddressedClauses t shapes clauses t') : t <+: t' := by
  induction h with
  | nil => exact List.prefix_refl _
  | cons head _ ih => exact head.grows.trans ih

theorem AddressedParams.grows {f : Surface.FunctionDef} {position : Nat} {t t' : Bindings}
    {params : List Surface.Param} {specs : List ParamSpec}
    (h : AddressedParams f position t params specs t') : t <+: t' := by
  induction h with
  | nil => exact List.prefix_refl _
  | cons _ _ _ _ default _ ih => exact default.grows.trans ih

theorem AddressedBody.grows {f : Surface.FunctionDef} {names : Names} {t t' : Bindings}
    {body : FunctionBody} (h : AddressedBody f names t body t') : t <+: t' := by
  cases h with
  | single _ code => exact code.grows
  | clauses _ code => exact code.grows

/-! ## Slots of parameters -/

theorem length_paramBindings (position : Nat) (specs : List ParamSpec) :
    (paramBindings position specs).length = specs.length := by
  induction specs generalizing position with
  | nil => rfl
  | cons spec specs ih => simp [paramBindings, ih]

theorem getElem?_paramBindings (position : Nat) (specs : List ParamSpec) (index : Nat) :
    (paramBindings position specs)[index]?
      = specs[index]?.map fun spec => ⟨spec.name, .param (position + index)⟩ := by
  induction specs generalizing position index with
  | nil => simp [paramBindings]
  | cons spec specs ih =>
      cases index with
      | zero => simp [paramBindings]
      | succ index =>
          simp only [paramBindings, List.getElem?_cons_succ, ih, Nat.add_assoc,
            Nat.add_comm 1 index]

/-- The slot of a parameter is its position. -/
theorem AddressedParams.getElem? {f : Surface.FunctionDef} {position : Nat} {t t' : Bindings}
    {params : List Surface.Param} {specs : List ParamSpec}
    (h : AddressedParams f position t params specs t') {index : Nat} {spec : ParamSpec}
    (at_index : specs[index]? = some spec) : spec.slot = position + index := by
  induction h generalizing index with
  | nil => simp at at_index
  | cons _ slot _ _ _ _ ih =>
      cases index with
      | zero =>
          simp only [List.getElem?_cons_zero, Option.some.injEq] at at_index
          rw [← at_index, slot, Nat.add_zero]
      | succ index =>
          rw [@ih index (by simpa using at_index), Nat.add_assoc, Nat.add_comm 1 index]

theorem AddressedParams.length_eq {f : Surface.FunctionDef} {position : Nat} {t t' : Bindings}
    {params : List Surface.Param} {specs : List ParamSpec}
    (h : AddressedParams f position t params specs t') : specs.length = params.length := by
  induction h with
  | nil => rfl
  | cons _ _ _ _ _ _ ih => simp [ih]

theorem AddressedParams.slot_lt {f : Surface.FunctionDef} {position : Nat} {t t' : Bindings}
    {params : List Surface.Param} {specs : List ParamSpec}
    (h : AddressedParams f position t params specs t') {spec : ParamSpec} (member : spec ∈ specs) :
    spec.slot < position + specs.length := by
  rcases List.mem_iff_getElem?.mp member with ⟨index, at_index⟩
  have lt : index < specs.length := (List.getElem?_eq_some_iff.mp at_index).1
  calc spec.slot = position + index := h.getElem? at_index
    _ < position + specs.length := Nat.add_lt_add_left lt position

/-- The names of the parameters have the first slots. -/
theorem AddressedParams.namesBelow {f : Surface.FunctionDef} {t t' : Bindings}
    {params : List Surface.Param} {specs : List ParamSpec}
    (h : AddressedParams f 0 t params specs t') : Below (paramNames specs) specs.length := by
  intro entry member
  simp only [paramNames, List.mem_reverse, List.mem_map] at member
  rcases member with ⟨spec, member, rfl⟩
  simpa using h.slot_lt member

/-- The table has a place for every parameter. -/
theorem AddressedParams.length_le {f : Surface.FunctionDef} {position : Nat} {t' : Bindings}
    {params : List Surface.Param} {specs : List ParamSpec}
    (h : AddressedParams f position (paramBindings position specs) params specs t') :
    specs.length ≤ t'.length := by
  calc specs.length = (paramBindings position specs).length :=
        (length_paramBindings position specs).symm
    _ ≤ t'.length := h.grows.length_le

namespace AddressedFunction

variable {f : Surface.FunctionDef} {spec : FunctionSpec}

/-- The table begins with the parameters. -/
theorem labels (h : AddressedFunction f spec) : paramBindings 0 spec.params <+: spec.bindings := by
  rcases h.code with ⟨t, params, body⟩
  exact params.grows.trans body.grows

/-- The table has the name of a parameter at its slot. -/
theorem nameOf (h : AddressedFunction f spec) {param : ParamSpec} (member : param ∈ spec.params) :
    spec.bindings.nameOf param.slot = param.name := by
  rcases h.code with ⟨t, params, body⟩
  rcases List.mem_iff_getElem?.mp member with ⟨index, at_index⟩
  have slot : param.slot = index := by simpa using params.getElem? at_index
  have entry : (paramBindings 0 spec.params)[index]? = some ⟨param.name, .param index⟩ := by
    simp [getElem?_paramBindings, at_index]
  -- The table only grew since it held just the parameters.
  rcases h.labels with ⟨rest, append⟩
  have lt : index < (paramBindings 0 spec.params).length := (List.getElem?_eq_some_iff.mp entry).1
  have found : spec.bindings[index]? = some ⟨param.name, .param index⟩ := by
    calc spec.bindings[index]? = (paramBindings 0 spec.params ++ rest)[index]? := by rw [append]
      _ = (paramBindings 0 spec.params)[index]? := List.getElem?_append_left lt
      _ = some ⟨param.name, .param index⟩ := entry
  simp [Bindings.nameOf, slot, found]

end AddressedFunction

/-! ## Lowering gives addressed functions -/

/-- A default is lowered as any expression without names in scope. -/
theorem lowerDefault_addressed {value : Surface.Expr} {t t' : Bindings} {c : Core.Expr}
    (h : lowerDefault value t = .ok (c, t')) : AddressedExpr [] t value c t' := by
  unfold lowerDefault at h
  split at h
  next result lowered =>
    cases h
    exact lowerExpr_addressed value lowered
  next => cases h

/-- The first of some parameters gets the default of its annotation. -/
theorem lowerDefaults_cons {bare : ParamSpec} {bares specs : List ParamSpec}
    {param : Surface.Param} {params : List Surface.Param} {t t' : Bindings}
    (h : lowerDefaults (bare :: bares) (param :: params) t = .ok (specs, t')) :
    ∃ default t₁ rest, AddressedOption [] t (default? param) default t₁ ∧
      lowerDefaults bares params t₁ = .ok (rest, t') ∧ specs = { bare with default } :: rest := by
  rw [default?_eq]
  simp only [lowerDefaults] at h
  cases written : (describe param.type).default with
  | none =>
      simp only [written] at h
      -- Without a default nothing is lowered, and the table stays as it is.
      rcases run_bind_eq_ok.mp h with ⟨default, t₁, here, h⟩
      cases here
      rcases run_bind_eq_ok.mp h with ⟨rest, t₂, there, hr⟩
      cases hr
      exact ⟨none, t, rest, .none, there, rfl⟩
  | some value =>
      simp only [written] at h
      rcases run_bind_eq_ok.mp h with ⟨c, t₁, code, h⟩
      rcases run_bind_eq_ok.mp h with ⟨default, t₂, here, h⟩
      cases here
      rcases run_bind_eq_ok.mp h with ⟨rest, t₃, there, hr⟩
      cases hr
      exact ⟨some c, t₁, rest, .some (lowerDefault_addressed code), there, rfl⟩

theorem lowerParams_addressed {f : Surface.FunctionDef} {position : Nat} {seen : List String}
    {params : List Surface.Param} {bare specs : List ParamSpec} {t t' : Bindings}
    (lowered : lowerParams (typeVars f.constraints) position seen params = .ok bare)
    (defaults : lowerDefaults bare params t = .ok (specs, t')) :
    AddressedParams f position t params specs t' ∧
      ∀ start, paramBindings start specs = paramBindings start bare := by
  -- Parameters are lowered in two rounds, all types before all defaults; the induction joins them.
  induction params generalizing position seen bare specs t with
  | nil =>
      cases lowered
      cases defaults
      exact ⟨.nil, fun _ => rfl⟩
  | cons param params ih =>
      simp only [lowerParams] at lowered
      split at lowered
      · cases lowered
      · split at lowered
        next => cases lowered
        next type resolved =>
          rcases map_eq_ok.mp lowered with ⟨others, lowered', rfl⟩
          rcases lowerDefaults_cons defaults with ⟨default, t₁, rest, here, there, rfl⟩
          rcases ih lowered' there with ⟨restAddressed, names⟩
          refine ⟨.cons rfl rfl resolved rfl here restAddressed, ?_⟩
          intro start
          simp only [paramBindings, names]

theorem lowerClause_addressed {shape : ClauseShape} {clause : ClauseSpec} {t t' : Bindings}
    (h : lowerClause shape t = .ok (clause, t')) : AddressedClause t shape clause t' := by
  simp only [lowerClause] at h
  -- The head runs with the table of the function and no names, and gives the table back.
  rcases run_bind_eq_ok.mp h with ⟨table, t₀, got, afterGet⟩
  cases got
  rcases run_bind_eq_ok.mp afterGet with ⟨⟨patterns, head⟩, t₁, hp, afterHead⟩
  rcases run_bind_eq_ok.mp afterHead with ⟨u, t₂, hs, afterSet⟩
  cases hs
  cases lowered : lowerPatterns shape.patterns { bindings := t, names := [] } with
  | error e =>
      rw [lowered] at hp
      cases hp
  | ok result =>
      rw [lowered] at hp
      cases hp
      have patternsAddressed := lowerPatterns_addressed _ lowered
      cases written : shape.guard with
      | none =>
          simp only [written] at afterSet
          rcases run_bind_eq_ok.mp afterSet with ⟨guard, t₃, hg, afterGuard⟩
          cases hg
          rcases run_bind_eq_ok.mp afterGuard with ⟨body, t₄, hb, hr⟩
          cases hr
          exact ⟨head.names, head.bindings, head.bindings, body, patternsAddressed,
            written ▸ .none, lowerExpr_addressed _ hb, rfl⟩
      | some e =>
          simp only [written] at afterSet
          rcases run_bind_eq_ok.mp afterSet with ⟨c, t₃, code, afterCode⟩
          rcases run_bind_eq_ok.mp afterCode with ⟨guard, t₄, hg, afterGuard⟩
          cases hg
          rcases run_bind_eq_ok.mp afterGuard with ⟨body, t₅, hb, hr⟩
          cases hr
          exact ⟨head.names, head.bindings, t₃, body, patternsAddressed,
            written ▸ .some (lowerExpr_addressed e code), lowerExpr_addressed _ hb, rfl⟩

theorem lowerClauses_addressed {shapes : List ClauseShape} {clauses : List ClauseSpec}
    {t t' : Bindings} (h : lowerClauses shapes t = .ok (clauses, t')) :
    AddressedClauses t shapes clauses t' := by
  induction shapes generalizing clauses t with
  | nil =>
      cases h
      exact .nil
  | cons shape shapes ih =>
      simp only [lowerClauses] at h
      rcases run_bind_eq_ok.mp h with ⟨clause, t₁, h₁, h⟩
      rcases run_bind_eq_ok.mp h with ⟨rest, t₂, h₂, hr⟩
      cases hr
      exact .cons (lowerClause_addressed h₁) (ih h₂)

theorem lowerBody_addressed {f : Surface.FunctionDef} {params : List ParamSpec}
    {body : FunctionBody} {t t' : Bindings} (h : lowerBody params f.body t = .ok (body, t')) :
    AddressedBody f (paramNames params) t body t' := by
  cases shape : clauseShapes? f.body with
  | some shapes =>
      simp only [lowerBody, shape] at h
      rcases run_bind_eq_ok.mp h with ⟨clauses, t₁, h₁, hr⟩
      cases hr
      exact .clauses shape (lowerClauses_addressed h₁)
  | none =>
      simp only [lowerBody, lowerBlock, shape] at h
      rcases run_bind_eq_ok.mp h with ⟨block, t₁, h₁, hr⟩
      cases hr
      rcases run_bind_eq_ok.mp h₁ with ⟨stmts, t₂, h₂, hr⟩
      cases hr
      exact .single shape (lowerStmts_addressed f.body h₂)

/-- What lowering makes of a function is addressed. -/
theorem lowerFunction_addressed {f : Surface.FunctionDef} {spec : FunctionSpec}
    (h : lowerFunction f = .ok spec) : AddressedFunction f spec := by
  simp only [lowerFunction] at h
  rcases bind_eq_ok.mp h with ⟨constraints, hc, h⟩
  rcases bind_eq_ok.mp h with ⟨bare, hp, h⟩
  rcases bind_eq_ok.mp h with ⟨⟨params, t⟩, hd, h⟩
  rcases lowerParams_addressed hp hd with ⟨paramsAddressed, names⟩
  -- The table starts with the parameters as they are before their defaults are known.
  rw [← names 0] at paramsAddressed
  have bounds : LoweredConstraints f.constraints constraints := traverse_forall₂ hc
  -- The return type is checked on the way and leaves nothing in the code.
  cases written : f.returnType with
  | none =>
      simp only [written] at h
      rcases bind_eq_ok.mp h with ⟨returnType, _, h⟩
      rcases bind_eq_ok.mp h with ⟨⟨body, bindings⟩, hb, hr⟩
      cases hr
      exact ⟨rfl, bounds, t, paramsAddressed, lowerBody_addressed hb⟩
  | some type =>
      simp only [written] at h
      rcases bind_eq_ok.mp h with ⟨returnType, _, h⟩
      rcases bind_eq_ok.mp h with ⟨⟨body, bindings⟩, hb, hr⟩
      cases hr
      exact ⟨rfl, bounds, t, paramsAddressed, lowerBody_addressed hb⟩

end Lowering
end Clausal
