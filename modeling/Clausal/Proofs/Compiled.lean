import Mathlib.Data.List.Forall2
import Clausal.Proofs.Lowering.Readings
import Clausal.Proofs.Outcome
import Clausal.Program.Compile

/-!
# What the compiler makes of functions and modules

Each stage of compiling is inverted once: what a compiled function looks like
(`compileFunction_cases`), which functions a compiled module has (`compileModule_functions`), and
which modules a program has (`compileModules_forall₂`).
-/

namespace Clausal
namespace Compile

open Clausal.Core (Declaration Expr Implementation Program ProgramModule)
open Outcome

/-! ## Lists of results -/

/-- Looking for related elements finds related elements. -/
theorem find?_rel {α β : Type} {r : α → β → Prop} {p : α → Bool} {q : β → Bool} {as : List α}
    {bs : List β} (related : List.Forall₂ r as bs) (same : ∀ a b, r a b → p a = q b) :
    Option.Rel r (as.find? p) (bs.find? q) := by
  induction related with
  | nil => exact .none
  | @cons a b _ _ head _ ih =>
      simp only [List.find?_cons, same a b head]
      cases q b with
      | true => exact .some head
      | false => exact ih

/-- Looking for the name of an element finds it if names are distinct. -/
theorem find?_of_nodup {α : Type} {name : α → String} {as : List α}
    (distinct : (as.map name).Nodup) {a : α} (member : a ∈ as) :
    (as.find? fun other => name other == name a) = some a := by
  induction as with
  | nil => cases member
  | cons first rest ih =>
      rw [List.map_cons, List.nodup_cons] at distinct
      rcases List.mem_cons.mp member with rfl | member
      · simp
      · have differs : (name first == name a) = false := by
          rw [beq_eq_false_iff_ne]
          intro same
          exact distinct.1 (same ▸ List.mem_map_of_mem member)
        rw [List.find?_cons, differs]
        exact ih distinct.2 member

theorem forall₂_comp {α β γ : Type} {r : α → β → Prop} {s : β → γ → Prop} {u : α → γ → Prop}
    {as : List α} {bs : List β} {cs : List γ} (first : List.Forall₂ r as bs)
    (second : List.Forall₂ s bs cs) (both : ∀ a b c, r a b → s b c → u a c) :
    List.Forall₂ u as cs := by
  induction first generalizing cs with
  | nil =>
      cases second
      exact .nil
  | cons head _ ih =>
      cases second with
      | cons head' tail' => exact .cons (both _ _ _ head head') (ih tail')

theorem exists_mem_of_forall₂ {α β : Type} {r : α → β → Prop} {as : List α} {bs : List β}
    (related : List.Forall₂ r as bs) {b : β} (member : b ∈ bs) : ∃ a ∈ as, r a b := by
  induction related with
  | nil => cases member
  | cons head _ ih =>
      rcases List.mem_cons.mp member with rfl | member
      · exact ⟨_, List.mem_cons_self, head⟩
      · rcases ih member with ⟨a, inRest, here⟩
        exact ⟨a, List.mem_cons_of_mem _ inRest, here⟩

/-! ## Functions -/

/-- What a parameter asks of a guard is a test of its slot. -/
theorem paramGuard_cases {constraints : List TypeConstraint} {param : ParamSpec}
    {guard : Option Expr} (h : paramGuard? constraints param = .ok guard) :
    guard = none ∨ ∃ test, guard = some (.call (.builtin test) [.var param.slot]) := by
  unfold paramGuard? at h
  split at h
  next =>
    split at h
    next test _ =>
      cases h
      exact .inr ⟨test, rfl⟩
    next => cases h
  next =>
    cases h
    exact .inl rfl

/-- What joining preserves passes from the tests of the parameters to the guard of a function. -/
theorem combinedGuard_induction {P : Option Expr → Prop}
    (joined : ∀ before guard, P before → P guard → P (conjoin before guard))
    {constraints : List TypeConstraint} {before guard : Option Expr} {params : List ParamSpec}
    (h : combinedGuard constraints before params = .ok guard) (first : P before)
    (each : ∀ param ∈ params, ∀ own, paramGuard? constraints param = .ok own → P own) :
    P guard := by
  induction params generalizing before with
  | nil =>
      cases h
      exact first
  | cons param params ih =>
      simp only [combinedGuard] at h
      split at h
      next => cases h
      next own asked =>
        have here : P own := each param List.mem_cons_self own asked
        have later : ∀ other ∈ params, ∀ own, paramGuard? constraints other = .ok own → P own :=
          fun other member => each other (List.mem_cons_of_mem _ member)
        exact ih h (joined before own first here) later

/-- What a parameter asks of the body is a validation of its slot. -/
theorem paramValidation_cases {owner : String} {param : ParamSpec} {check : Option Core.Stmt}
    (h : paramValidation? owner param = .ok check) :
    check = none ∨ ∃ checker, check = some (.validate param.slot checker) := by
  unfold paramValidation? at h
  split at h
  next =>
    split at h
    next checker _ =>
      cases h
      exact .inr ⟨checker, rfl⟩
    next =>
      cases h
      exact .inr ⟨owner, rfl⟩
    next => cases h
  next =>
    cases h
    exact .inl rfl

/-- A clause becomes an implementation as it is, if it has a pattern for each parameter and a guard
that runs no other code. -/
theorem clauseImplementation_eq_ok {spec : FunctionSpec} {clause : ClauseSpec}
    {implementation : Implementation}
    (h : clauseImplementation spec clause = .ok implementation) :
    implementation = ⟨clause.patterns, clause.guard, clause.body⟩ ∧
      clause.patterns.length = spec.arity ∧
      ∀ guard, clause.guard = some guard → guard.unsafeCall? = none := by
  unfold clauseImplementation at h
  split at h
  next => cases h
  next count =>
    split at h
    next => cases h
    next safe =>
      -- Both refusals are behind us: the number of patterns and the calls of the guard are right.
      cases h
      refine ⟨rfl, by simpa using count, ?_⟩
      intro guard written
      simpa [written] using safe

theorem clauseImplementations_forall₂ {spec : FunctionSpec} {clauses : List ClauseSpec}
    {implementations : List Implementation}
    (h : clauseImplementations spec clauses = .ok implementations) :
    List.Forall₂ (fun clause implementation =>
      clauseImplementation spec clause = .ok implementation) clauses implementations := by
  induction clauses generalizing implementations with
  | nil =>
      cases h
      exact .nil
  | cons clause clauses ih =>
      simp only [clauseImplementations] at h
      split at h
      next => cases h
      next implementation here =>
        rcases map_eq_ok.mp h with ⟨rest, there, rfl⟩
        exact .cons here (ih there)

/-- The two kinds of compiled functions. -/
inductive CompiledBody (owner : String) (spec : FunctionSpec) : List Implementation → Prop where
  | single {body guard checks} (written : spec.body = .single body)
      (guarded : combinedGuard spec.constraints none spec.params = .ok guard)
      (checked : validations owner spec.params = .ok checks) :
      CompiledBody owner spec
        [{ patterns := spec.params.map fun p => .bind p.slot, guard, body := checks ++ body }]
  | clauses {clauses implementations} (written : spec.body = .clauses clauses)
      (compiled : List.Forall₂ (fun clause implementation =>
        clauseImplementation spec clause = .ok implementation) clauses implementations) :
      CompiledBody owner spec implementations

theorem implementations_cases {owner : String} {spec : FunctionSpec}
    {compiled : List Implementation} (h : implementations owner spec = .ok compiled) :
    CompiledBody owner spec compiled := by
  unfold implementations at h
  split at h
  next clauses written =>
    -- Whether the clauses conflict with the parameters is only checked.
    rcases bind_eq_ok.mp h with ⟨_, _, h⟩
    exact .clauses written (clauseImplementations_forall₂ h)
  next body written =>
    rcases bind_eq_ok.mp h with ⟨guard, guarded, h⟩
    rcases bind_eq_ok.mp h with ⟨checks, checked, h⟩
    cases h
    exact .single written guarded checked

theorem compileFunction_cases {owner : String} {spec : FunctionSpec} {decl : Declaration}
    (h : compileFunction owner spec = .ok decl) :
    ∃ compiled, decl = declaration spec compiled ∧ CompiledBody owner spec compiled := by
  rcases map_eq_ok.mp h with ⟨compiled, here, rfl⟩
  exact ⟨compiled, rfl, implementations_cases here⟩

theorem compileFunction_name {owner : String} {spec : FunctionSpec} {decl : Declaration}
    (h : compileFunction owner spec = .ok decl) : decl.name = spec.name := by
  rcases compileFunction_cases h with ⟨compiled, rfl, _⟩
  rfl

/-- A function that validates a parameter has a single body. -/
theorem single_of_validate {owner : String} {spec : FunctionSpec} {decl : Declaration}
    (compiled : compileFunction owner spec = .ok decl) {param : ParamSpec}
    (member : param ∈ spec.params) (mode : param.mode = .validate) :
    ∃ body, spec.body = .single body := by
  rcases map_eq_ok.mp compiled with ⟨_, made, -⟩
  cases written : spec.body with
  | single body => exact ⟨body, rfl⟩
  | clauses clauses =>
      -- Clauses are only compiled if no parameter asks for anything.
      rw [implementations, written] at made
      rcases bind_eq_ok.mp made with ⟨_, free, -⟩
      have here : (spec.params.find? fun p => p.mode == .validate).isSome = true :=
        List.find?_isSome.mpr ⟨param, member, by simp [mode]⟩
      simp only [checkConflicts] at free
      split at free
      next => cases free
      next =>
        split at free
        next => cases free
        next none =>
          rw [none] at here
          cases here

/-! ## Modules -/

theorem declareName_eq_ok {owner : String} {declared after : Declared} {spec : FunctionSpec}
    (h : declareName owner declared spec = .ok after) :
    declared.lookup spec.name = none ∧ after = (spec.name, spec.span) :: declared := by
  unfold declareName at h
  split at h
  next fresh =>
    cases h
    exact ⟨fresh, rfl⟩
  next => cases h

/-- Every function is compiled, and no name is declared twice. -/
theorem compileFunctions_forall₂ {owner : String} {declared : Declared}
    {specs : List FunctionSpec} {decls : List Declaration}
    (h : compileFunctions owner declared specs = .ok decls) :
    List.Forall₂ (fun spec decl => compileFunction owner spec = .ok decl) specs decls ∧
      (specs.map (·.name)).Nodup ∧ ∀ spec ∈ specs, declared.lookup spec.name = none := by
  induction specs generalizing declared decls with
  | nil =>
      cases h
      exact ⟨.nil, List.nodup_nil, fun _ member => nomatch member⟩
  | cons spec specs ih =>
      simp only [compileFunctions] at h
      split at h
      next => cases h
      next after isDeclared =>
        split at h
        next => cases h
        next decl here =>
          rcases map_eq_ok.mp h with ⟨rest, there, rfl⟩
          rcases declareName_eq_ok isDeclared with ⟨fresh, rfl⟩
          rcases ih there with ⟨compiled, distinct, unseen⟩
          -- A later function was looked up after this one had been declared.
          have later : ∀ other ∈ specs,
              other.name ≠ spec.name ∧ declared.lookup other.name = none := by
            intro other member
            have missing := unseen other member
            by_cases same : other.name = spec.name
            · simp [same] at missing
            · have differs : (other.name == spec.name) = false := by simpa using same
              rw [List.lookup_cons, differs] at missing
              exact ⟨same, missing⟩
          refine ⟨.cons here compiled, ?_, ?_⟩
          · rw [List.map_cons, List.nodup_cons]
            refine ⟨?_, distinct⟩
            intro member
            rcases List.mem_map.mp member with ⟨other, inRest, same⟩
            exact (later other inRest).1 same
          · intro other member
            rcases List.mem_cons.mp member with rfl | member
            · exact fresh
            · exact (later other member).2

/-- The functions of a compiled module are those of its struct and those written in it. -/
theorem compileModule_functions {m : ModuleSpec} {compiled : ProgramModule}
    (h : compileModule m = .ok compiled) :
    compiled.name = m.name ∧
      List.Forall₂ (fun spec decl => compileFunction m.name spec = .ok decl)
        (moduleFunctions m) compiled.functions ∧
      ((moduleFunctions m).map (·.name)).Nodup := by
  unfold compileModule at h
  -- The record of a struct is compiled beside the functions and does not touch them.
  rcases bind_eq_ok.mp h with ⟨record, _, h⟩
  rcases bind_eq_ok.mp h with ⟨functions, here, hr⟩
  cases hr
  rcases compileFunctions_forall₂ here with ⟨compiled, distinct, _⟩
  exact ⟨rfl, compiled, distinct⟩

theorem compileModules_forall₂ {modules : List ModuleSpec} {program : Program}
    (h : compileModules modules = .ok program) :
    List.Forall₂ (fun m compiled => compileModule m = .ok compiled) modules program.modules := by
  unfold compileModules at h
  rcases bind_eq_ok.mp h with ⟨_, _, h⟩
  rcases bind_eq_ok.mp h with ⟨compiled, here, hr⟩
  cases hr
  exact Lowering.traverse_forall₂ here

end Compile
end Clausal
