import Clausal.Proofs.Lowering.Function
import Clausal.Proofs.Lowering.Simulation
import Clausal.Proofs.Invocation
import Clausal.Program.Compile

/-!
# One activation of a function

A call of a compiled function and a run of its tree go through the same stages: the arguments are
completed by defaults, an implementation is chosen, the arguments are validated, and the body runs.
Each section compares one stage; `Clausal.Proofs.Lowering.Program` puts the stages together.
-/

namespace Clausal
namespace Lowering

open Clausal.Core (Slot Bindings Expr Stmt Implementation)
open Clausal.Machine (Frame Host settle isTrue evalGuard_of_error evalGuard_of_ok)
open Clausal.Meaning (Env Site default?)
open Outcome

variable {f : Surface.FunctionDef} {position : Nat} {t t' : Bindings}
variable {params : List Surface.Param} {specs : List ParamSpec}

/-! ## Arguments -/

/-- What a call needs to know of some parameters. -/
def forwardParams (specs : List ParamSpec) : List Core.ForwardParam :=
  specs.map fun p => { name := p.name, slot := p.slot, default := p.default }

theorem AddressedOption.isNone_eq {names : Names} {e : Option Surface.Expr} {c : Option Expr}
    (h : AddressedOption names t e c t') : c.isNone = e.isNone := by
  cases h with
  | none => rfl
  | some => rfl

/-- As many parameters have no default before and after lowering. -/
theorem AddressedParams.required_eq (h : AddressedParams f position t params specs t') :
    ((forwardParams specs).filter fun p => p.default.isNone).length
      = (params.filter fun param => (default? param).isNone).length := by
  induction h with
  | nil => rfl
  | @cons _ _ param _ spec _ _ _ _ _ _ _ default _ ih =>
      have optional : spec.default.isNone = (default? param).isNone := default.isNone_eq
      simp only [forwardParams, List.map_cons, List.filter_cons, optional] at ih ⊢
      split <;> simp [ih]

/-- A default has the same outcome before and after lowering. -/
theorem AddressedExpr.closed_agrees {e : Surface.Expr} {c : Expr} (h : AddressedExpr [] t e c t')
    (host : Host (Except Fault)) :
    (Machine.evalExpr host c .empty).map Prod.fst = Meaning.evalExpr (siteOf host) [] e := by
  have below : Below [] t.length := fun _ member => nomatch member
  exact (h.agrees host below (show Matches Frame.empty [] [] from .nil)).outcome_eq

theorem AddressedParams.fillDefaults_eq (h : AddressedParams f position t params specs t')
    (host : Host (Except Fault)) (spare : Nat) (args : List Value) :
    Machine.fillDefaults host spare (forwardParams specs) args
      = Meaning.fillDefaults (siteOf host) spare params args := by
  induction h generalizing spare args with
  | nil => rfl
  | @cons _ _ param params spec specs _ _ _ _ _ _ default _ ih =>
      simp only [forwardParams, List.map_cons] at ih ⊢
      simp only [Machine.fillDefaults, Meaning.fillDefaults]
      -- The relation is between the two defaults themselves, so these become variables.
      generalize default? param = written at default ⊢
      generalize spec.default = lowered at default ⊢
      cases default with
      | none => simp only [ih]
      | some code =>
          cases spare with
          | succ spare => simp only [ih]
          | zero =>
              simp only [ih, StateT.run]
              rw [← code.closed_agrees host]
              cases Machine.evalExpr host _ Frame.empty <;> rfl

/-- Filling in defaults gives an argument for every parameter. -/
theorem length_fillDefaults {site : Site} {spare : Nat} {args full : List Value}
    (h : Meaning.fillDefaults site spare params args = .ok full)
    (count : args.length = spare + (params.filter fun param => (default? param).isNone).length) :
    full.length = params.length := by
  -- Spare arguments are those beyond the required ones; each step takes one argument for a required
  -- parameter or a spare one for an optional parameter, so that the count stays exact.
  induction params generalizing spare args full with
  | nil =>
      cases h
      rfl
  | cons param params ih =>
      simp only [Meaning.fillDefaults] at h
      cases optional : default? param with
      | none =>
          simp only [optional] at h
          rcases bind_eq_ok.mp h with ⟨rest, hr, hf⟩
          cases hf
          simp only [List.filter_cons, optional, Option.isNone_none, if_true,
            List.length_cons] at count
          have restCount := ih hr (by rw [List.length_drop]; omega)
          simp only [List.length_append, List.length_take, List.length_cons]
          omega
      | some value =>
          simp only [List.filter_cons, optional, Option.isNone_some, Bool.false_eq_true,
            if_false] at count
          cases spare with
          | zero =>
              simp only [optional] at h
              rcases bind_eq_ok.mp h with ⟨v, _, h⟩
              rcases bind_eq_ok.mp h with ⟨rest, hr, hf⟩
              cases hf
              simp [ih hr count]
          | succ spare =>
              simp only [optional] at h
              rcases bind_eq_ok.mp h with ⟨rest, hr, hf⟩
              cases hf
              have restCount := ih hr (by rw [List.length_drop]; omega)
              simp only [List.length_append, List.length_take, List.length_cons]
              omega

theorem length_completeArgs {site : Site} {args full : List Value}
    (h : Meaning.completeArgs site f args = .ok full) : full.length = f.params.length := by
  unfold Meaning.completeArgs at h
  split at h
  next => cases h
  next count =>
    split at h
    next all =>
      cases h
      exact all
    next =>
      refine length_fillDefaults h ?_
      simp only [Meaning.required] at count ⊢
      omega

/-! ## Guards of parameters -/

/-- The builtin of a base type tests for that type. -/
theorem applyBuiltin_testFor {base : BaseType} {test : Core.Builtin}
    (h : Compile.testFor? base = some test) (value : Value) :
    Machine.applyBuiltin test [value] = .ok (.bool (Meaning.ofBase base value)) := by
  cases base <;> cases h <;> rfl

/-- A type has a test if it stands for a base type that has one. -/
theorem exists_base_of_typeTest? {constraints : List TypeConstraint} {type : TypeExpr}
    {test : Core.Builtin} (h : Compile.typeTest? constraints type = some test) :
    ∃ base, type.resolve? constraints = some (.base base) ∧ Compile.testFor? base = some test := by
  unfold Compile.typeTest? at h
  split at h
  next base resolved => exact ⟨base, resolved, h⟩
  next => cases h

/-- A guard that may be missing answers `answer` in a frame, and changes nothing. -/
def GuardAnswers (host : Host (Except Fault)) (frame : Frame) (guard : Option Expr)
    (answer : Bool) : Prop :=
  match guard with
  | none => answer = true
  | some code => Machine.evalExpr host code frame = .ok (.bool answer, frame)

variable {host : Host (Except Fault)} {frame : Frame}

/-- Joined guards answer the conjunction. -/
theorem GuardAnswers.conjoin {before guard : Option Expr} {a b : Bool}
    (first : GuardAnswers host frame before a) (second : GuardAnswers host frame guard b) :
    GuardAnswers host frame (Compile.conjoin before guard) (a && b) := by
  match before, guard with
  | none, none =>
      have ha : a = true := first
      have hb : b = true := second
      simp [Compile.conjoin, GuardAnswers, ha, hb]
  | some code, none =>
      have hb : b = true := second
      simpa [Compile.conjoin, hb] using first
  | none, some code =>
      have ha : a = true := first
      simpa [Compile.conjoin, ha] using second
  | some code, some code' =>
      have left : Machine.evalExpr host code frame = .ok (.bool a, frame) := first
      have right : Machine.evalExpr host code' frame = .ok (.bool b, frame) := second
      -- The second guard is skipped if the first does not hold, and `false` is then the answer.
      simp only [Compile.conjoin, GuardAnswers, Machine.evalExpr]
      rw [run_bind_of_ok left]
      cases a with
      | false => rfl
      | true =>
          have holds : (settle (Machine.truthOf .and (.bool true)) :
              StateT Frame (Except Fault) Bool) frame = .ok (true, frame) := rfl
          rw [run_bind_of_ok holds, if_pos rfl, run_bind_of_ok right]
          cases b <;> rfl

/-- The values of parameters from a position on, each in the slot of its position. -/
def HoldsFrom (frame : Frame) : (position : Nat) → List Value → Prop
  | _, [] => True
  | position, value :: values =>
      frame.get? position = some value ∧ HoldsFrom frame (position + 1) values

theorem HoldsFrom.keep {frame' : Frame} {values : List Value}
    (h : HoldsFrom frame position values)
    (same : ∀ slot, position ≤ slot → frame'.get? slot = frame.get? slot) :
    HoldsFrom frame' position values := by
  induction values generalizing position with
  | nil => trivial
  | cons value values ih =>
      refine ⟨?_, ih h.2 fun slot le => same slot (Nat.le_of_succ_le le)⟩
      rw [same position (Nat.le_refl position)]
      exact h.1

variable {constraints : List TypeConstraint}

/-- The guard of a parameter asks whether its argument passes. -/
theorem paramGuard_answers {param : Surface.Param} {spec : ParamSpec} {guard : Option Expr}
    (bounds : LoweredConstraints f.constraints constraints)
    (type : lowerType (typeVars f.constraints) (describe param.type).type = .ok spec.type)
    (mode : spec.mode = (describe param.type).mode)
    (h : Compile.paramGuard? constraints spec = .ok guard) {value : Value}
    (holds : frame.get? spec.slot = some value) :
    GuardAnswers host frame guard (Meaning.passes f param value) := by
  unfold Compile.paramGuard? at h
  rw [passes_eq bounds type, ← mode]
  cases asked : spec.mode with
  | guard =>
      simp only [asked] at h
      cases found : Compile.typeTest? constraints spec.type with
      | none => simp [found] at h
      | some test =>
          simp only [found, Except.ok.injEq] at h
          subst h
          -- The test is the builtin for the base type that the type stands for.
          rcases exists_base_of_typeTest? found with ⟨base, resolved, known⟩
          have args : Machine.evalExprs host [.var spec.slot] frame = .ok ([value], frame) := by
            simp only [Machine.evalExprs, Machine.evalExpr]
            rw [run_bind_of_ok (readSlot_eq host holds)]
            rfl
          simp only [if_true, resolved, GuardAnswers, Machine.evalExpr]
          rw [run_bind_of_ok args]
          simp only [Machine.runCall, applyBuiltin_testFor known value]
          rfl
  | none | validate =>
      simp only [asked] at h
      cases h
      rfl

/-- The guard of a function asks whether all arguments pass. -/
theorem AddressedParams.combinedGuard_answers (h : AddressedParams f position t params specs t')
    (bounds : LoweredConstraints f.constraints constraints) {before guard : Option Expr}
    {values : List Value} {answer : Bool}
    (combined : Compile.combinedGuard constraints before specs = .ok guard)
    (count : values.length = params.length) (holds : HoldsFrom frame position values)
    (first : GuardAnswers host frame before answer) :
    GuardAnswers host frame guard (answer && Meaning.passesAll f params values) := by
  induction h generalizing before values answer with
  | nil =>
      cases combined
      simpa [Meaning.passesAll] using first
  | @cons position _ param params spec specs _ _ _ slot type mode _ _ ih =>
      cases values with
      | nil => simp at count
      | cons value values =>
          simp only [Compile.combinedGuard] at combined
          cases asked : Compile.paramGuard? constraints spec with
          | error e => simp [asked] at combined
          | ok own =>
              simp only [asked] at combined
              have here : GuardAnswers host frame own (Meaning.passes f param value) :=
                paramGuard_answers bounds type mode asked (slot ▸ holds.1)
              have rest := ih combined (by simpa using count) holds.2 (first.conjoin here)
              simpa only [Meaning.passesAll, Bool.and_assoc] using rest

/-! ## Validations -/

/-- The frame of a single body, as its patterns leave it: the arguments in the first slots. -/
theorem AddressedParams.matchAll_bind (h : AddressedParams f position t params specs t')
    {values : List Value} (count : values.length = params.length) (frame : Frame) :
    ∃ frame', Machine.matchAll? (specs.map fun p => .bind p.slot) values frame = some frame' ∧
      HoldsFrom frame' position values ∧ SameBelow position frame frame' := by
  induction h generalizing values frame with
  | nil =>
      cases List.length_eq_zero_iff.mp count
      exact ⟨frame, rfl, trivial, SameBelow.refl _ frame⟩
  | @cons position _ param params spec specs _ _ _ slot _ _ _ _ ih =>
      cases values with
      | nil => simp at count
      | cons value values =>
          have counts : values.length = params.length := by simpa using count
          rcases ih counts (frame.set position value) with ⟨frame', matched, holds, same⟩
          -- Later parameters are bound in later slots and leave this one alone.
          refine ⟨frame', ?_, ⟨?_, holds⟩, ?_⟩
          · simp only [List.map_cons, Machine.matchAll?, Machine.matchPattern?, slot]
            exact matched
          · rw [same position (Nat.lt_succ_self position)]
            exact Frame.get?_set_self frame position value
          · exact (SameBelow.set (Nat.le_refl position) frame value).trans
              (same.mono (Nat.le_succ position))

/-- Validating a slot that holds a value. -/
theorem validateSlot_eq {slot : Slot} {value : Value} (holds : frame.get? slot = some value)
    (checker : String) :
    Machine.validateSlot host slot checker frame
      = match host.registry.get? checker with
        | none => .error (.unknownModule checker)
        | some valueModule =>
            match valueModule.validate value with
            | .ok accepted => .ok (accepted, frame.set slot accepted)
            | .error diagnostic =>
                .error (.validation (host.bindings.nameOf slot) value diagnostic) := by
  unfold Machine.validateSlot
  cases host.registry.get? checker with
  | none => rfl
  | some valueModule =>
      have got : (get : StateT Frame (Except Fault) Frame) frame = .ok (frame, frame) := rfl
      simp only [run_bind_of_ok got, holds, Option.getD_some]
      cases valueModule.validate value with
      | ok accepted => rfl
      | error diagnostic => rfl

/-- A `validate[..]` parameter is checked by the module that its type stands for. -/
theorem paramValidation_of_validate {owner : String} {spec : ParamSpec} {check : Option Stmt}
    (lowered : Compile.paramValidation? owner spec = .ok check) (asked : spec.mode = .validate) :
    ∃ checker, checker? owner spec.type = some checker ∧
      check = some (.validate spec.slot checker) := by
  unfold Compile.paramValidation? at lowered
  rw [asked] at lowered
  cases written : spec.type with
  | external checker =>
      rw [written] at lowered
      cases lowered
      exact ⟨checker, rfl, rfl⟩
  | selfType =>
      rw [written] at lowered
      cases lowered
      exact ⟨owner, rfl, rfl⟩
  | base base =>
      rw [written] at lowered
      cases lowered
  | var name =>
      rw [written] at lowered
      cases lowered

theorem paramValidation_of_ne {owner : String} {spec : ParamSpec} {check : Option Stmt}
    (lowered : Compile.paramValidation? owner spec = .ok check) (other : spec.mode ≠ .validate) :
    check = none := by
  unfold Compile.paramValidation? at lowered
  cases mode : spec.mode with
  | validate => exact absurd mode other
  | guard =>
      rw [mode] at lowered
      cases lowered
      rfl
  | none =>
      rw [mode] at lowered
      cases lowered
      rfl

/-- The validation of a parameter does to its slot what it does to its argument; `code` is what
follows it. -/
theorem paramValidation_agrees {param : Surface.Param} {spec : ParamSpec} {check : Option Stmt}
    {value : Value} (name : spec.name = param.name)
    (type : lowerType (typeVars f.constraints) (describe param.type).type = .ok spec.type)
    (mode : spec.mode = (describe param.type).mode)
    (label : host.bindings.nameOf spec.slot = spec.name)
    (lowered : Compile.paramValidation? host.owner spec = .ok check)
    (holds : frame.get? spec.slot = some value) (last : Value) (code : List Stmt) :
    (∃ fault, Meaning.validated (siteOf host) f param value = .error fault ∧
      Machine.evalBlock host last (check.toList ++ code) frame = .error fault) ∨
    (∃ accepted last' frame', Meaning.validated (siteOf host) f param value = .ok accepted ∧
      Machine.evalBlock host last (check.toList ++ code) frame
        = Machine.evalBlock host last' code frame' ∧
      frame'.get? spec.slot = some accepted ∧
      ∀ other, other ≠ spec.slot → frame'.get? other = frame.get? other) := by
  unfold Meaning.validated
  rw [validator_eq type, ← mode, ← name]
  -- Only a `validate[..]` parameter has a check; any other leaves its argument as it is.
  by_cases asked : spec.mode = .validate
  · rcases paramValidation_of_validate lowered asked with ⟨checker, resolved, rfl⟩
    have step : Machine.validateSlot host spec.slot checker frame = _ :=
      validateSlot_eq holds checker
    simp only [asked, if_true, siteOf, resolved, Option.toList_some, List.singleton_append,
      Machine.evalBlock]
    cases registered : host.registry.get? checker with
    | none =>
        rw [registered] at step
        exact .inl ⟨_, rfl, run_bind_of_error step⟩
    | some valueModule =>
        simp only [registered] at step
        cases outcome : valueModule.validate value with
        | error diagnostic =>
            simp only [outcome, label] at step
            refine .inl ⟨_, ?_, run_bind_of_error step⟩
            simp only [outcome]
        | ok accepted =>
            simp only [outcome] at step
            refine .inr ⟨accepted, accepted, frame.set spec.slot accepted, ?_, run_bind_of_ok step,
              Frame.get?_set_self frame spec.slot accepted,
              fun _ differs => Frame.get?_set_of_ne frame accepted differs⟩
            simp only [outcome]
  · cases paramValidation_of_ne lowered asked
    refine .inr ⟨value, last, frame, ?_, rfl, holds, fun _ _ => rfl⟩
    rw [if_neg asked]

/-- The validations of some parameters run as `bindParams` does; `code` is what follows them. -/
theorem AddressedParams.validations_agree (h : AddressedParams f position t params specs t')
    {checks : List Stmt} {values : List Value}
    (lowered : Compile.validations host.owner specs = .ok checks)
    (labels : ∀ spec ∈ specs, host.bindings.nameOf spec.slot = spec.name)
    (count : values.length = params.length) (holds : HoldsFrom frame position values)
    (last : Value) (code : List Stmt) :
    (∃ fault, Meaning.bindParams (siteOf host) f params values = .error fault ∧
      Machine.evalBlock host last (checks ++ code) frame = .error fault) ∨
    (∃ env last' frame', Meaning.bindParams (siteOf host) f params values = .ok env ∧
      Machine.evalBlock host last (checks ++ code) frame
        = Machine.evalBlock host last' code frame' ∧
      Matches frame' (paramNames specs) env ∧ SameBelow position frame frame') := by
  induction h generalizing checks values last frame with
  | nil =>
      cases lowered
      exact .inr ⟨[], last, frame, by simp [Meaning.bindParams], rfl, .nil, SameBelow.refl _ frame⟩
  | @cons position _ param params spec specs _ _ name slot type mode _ _ ih =>
      cases values with
      | nil => simp at count
      | cons value values =>
          simp only [Compile.validations] at lowered
          cases own : Compile.paramValidation? host.owner spec with
          | error e => simp [own] at lowered
          | ok check =>
              simp only [own] at lowered
              rcases map_eq_ok.mp lowered with ⟨others, lowered', rfl⟩
              simp only [Meaning.bindParams, List.append_assoc]
              have here : frame.get? spec.slot = some value := slot ▸ holds.1
              rcases paramValidation_agrees name type mode (labels spec List.mem_cons_self) own here
                last (others ++ code) with
                ⟨fault, refused, stopped⟩ | ⟨accepted, last₁, frame₁, passed, went, set, kept⟩
              · exact .inl ⟨fault, by rw [refused]; rfl, stopped⟩
              · -- Later parameters have later slots, so this one's value stays.
                have holds₁ : HoldsFrom frame₁ (position + 1) values :=
                  holds.2.keep fun other le => kept other (by rw [slot]; exact Nat.ne_of_gt le)
                have below₁ : SameBelow position frame frame₁ :=
                  fun other lt => kept other (by rw [slot]; exact Nat.ne_of_lt lt)
                have labels₁ : ∀ spec ∈ specs, host.bindings.nameOf spec.slot = spec.name :=
                  fun spec member => labels spec (List.mem_cons_of_mem _ member)
                have count₁ : values.length = params.length := by simpa using count
                rw [passed, went]
                rcases ih lowered' labels₁ count₁ holds₁ last₁ with
                  ⟨fault, refused, stopped⟩ | ⟨env, last₂, frame₂, bound, went₂, matched, same⟩
                · exact .inl ⟨fault, by rw [ok_bind, refused]; rfl, stopped⟩
                · refine .inr ⟨env ++ [(param.name, accepted)], last₂, frame₂, ?_, went₂, ?_,
                    below₁.trans (same.mono (Nat.le_succ position))⟩
                  · rw [ok_bind, bound]
                    rfl
                  · have stays : frame₂.get? spec.slot = some accepted := by
                      have lt : spec.slot < position + 1 := slot ▸ Nat.lt_succ_self position
                      calc frame₂.get? spec.slot = frame₁.get? spec.slot := same spec.slot lt
                        _ = some accepted := set
                    have names : paramNames (spec :: specs)
                        = paramNames specs ++ [(spec.name, spec.slot)] := by
                      simp [paramNames]
                    rw [names]
                    exact List.rel_append matched (.cons ⟨name, stays⟩ .nil)

/-! ## Clauses -/

theorem holds_of_ok {site : Site} {env : Env} {guard : Surface.Expr} {value : Value}
    (run : Meaning.evalExpr site env guard = .ok value) :
    Meaning.holds site env guard = isTrue value := by
  unfold Meaning.holds
  rw [run]
  cases value with
  | bool b => cases b <;> rfl
  | _ => rfl

/-- An implementation whose guard answers is entered, in the frame of its patterns, if the answer is
`true`. -/
theorem admit?_of_answers {patterns : List Core.Pattern} {guard : Option Expr} {body : Core.Block}
    {args : List Value} {answer : Bool}
    (matched : Machine.matchAll? patterns args .empty = some frame)
    (answers : GuardAnswers host frame guard answer) :
    Machine.admit? host ⟨patterns, guard, body⟩ args
      = .ok (if answer then some frame else none) := by
  simp only [Machine.admit?, matched]
  cases guard with
  | none =>
      have passed : answer = true := answers
      rw [passed]
      rfl
  | some code =>
      have run : Machine.evalExpr host code frame = .ok (.bool answer, frame) := answers
      simp only [StateT.run]
      rw [evalGuard_of_ok run]
      rfl

/-- Running the body of an implementation in a frame has the outcome of an expression in an
environment. -/
def RunsAs (host : Host (Except Fault)) (body : Core.Block) (frame : Frame) (env : Env)
    (e : Surface.Expr) : Prop :=
  (Machine.evalBlock host .nil body frame).map Prod.fst = Meaning.evalExpr (siteOf host) env e

/-- A clause lets the same arguments in before and after lowering, and its frame then holds what its
head has bound. -/
theorem admit_agreesMatch {names : Names} {t₁ : Bindings} {shape : ClauseShape}
    {patterns : List Core.Pattern} {guard : Option Expr}
    (head : AddressedPatterns [] t shape.patterns patterns names t₁)
    (condition : AddressedOption names t₁ shape.guard guard t') (host : Host (Except Fault))
    (body : Core.Block) (args : List Value) :
    ∃ found, Machine.admit? host ⟨patterns, guard, body⟩ args = .ok found ∧
      AgreesMatch names found (enterShape? (siteOf host) args shape) := by
  have none_below : Below [] t.length := fun _ member => nomatch member
  have below := head.keepsBelow none_below
  have agree : AgreesMatch names _ _ :=
    head.agreesAll args none_below (show Matches Frame.empty [] [] from .nil)
  -- Both sides match first; only when both have matched is there a guard to compare.
  unfold Machine.admit? enterShape?
  revert agree
  generalize Machine.matchAll? patterns args Frame.empty = matched₁
  generalize Meaning.matchAll? shape.patterns args [] = matched₂
  rintro (matched | _)
  · rename_i frame env
    dsimp only
    generalize shape.guard = written at condition ⊢
    cases condition with
    | none => exact ⟨some frame, rfl, .some matched⟩
    | @some e c _ code =>
        have agree := code.agrees host below matched
        dsimp only
        cases run : Machine.evalExpr host c frame with
        | error fault =>
            -- A guard that ends with a fault counts as one that does not hold, on both sides.
            rw [run] at agree
            have fails : Meaning.holds (siteOf host) env e = false := by
              unfold Meaning.holds
              rw [show Meaning.evalExpr (siteOf host) env e = .error fault from agree]
            rw [StateT.run, evalGuard_of_error run, fails]
            exact ⟨none, rfl, .none⟩
        | ok result =>
            rcases result with ⟨value, frame'⟩
            rw [run] at agree
            rw [StateT.run, evalGuard_of_ok run, holds_of_ok agree.1]
            cases isTrue value with
            | true => exact ⟨some frame', rfl, .some (matched.keep below agree.2)⟩
            | false => exact ⟨none, rfl, .none⟩
  · exact ⟨none, rfl, .none⟩

/-- Once a clause is entered, it does the same before and after lowering. -/
theorem AddressedClause.admit_agrees {entry : Surface.Stmt} {shape : ClauseShape}
    {clause : ClauseSpec} (is : clauseShape? entry = some shape)
    (h : AddressedClause t shape clause t') (host : Host (Except Fault)) (args : List Value) :
    ∃ found, Machine.admit? host ⟨clause.patterns, clause.guard, clause.body⟩ args = .ok found ∧
      Option.Rel (fun frame entered => RunsAs host clause.body frame entered.1 entered.2) found
        (Meaning.enter? (siteOf host) args entry) := by
  rcases h.exists_parts with ⟨names, t₁, t₂, body, patterns, guard, code, single⟩
  have below : Below names t₂.length :=
    (patterns.keepsBelow fun _ member => nomatch member).mono guard.grows.length_le
  rcases admit_agreesMatch patterns guard host clause.body args with ⟨found, admitted, agree⟩
  refine ⟨found, admitted, ?_⟩
  rw [enter?_of_shape is]
  -- The guard may have filled slots after those of the head, which the body does not see.
  generalize enterShape? (siteOf host) args shape = entered at agree ⊢
  cases agree with
  | none => exact .none
  | @some frame env matched =>
      refine .some ?_
      unfold RunsAs
      rw [single, ← (code.agrees host below matched).outcome_eq]
      simp only [Machine.evalBlock]
      cases run : Machine.evalExpr host body frame with
      | error fault => rw [run_bind_of_error run]
      | ok result => rw [run_bind_of_ok run]; rfl

end Lowering
end Clausal
