import Clausal.Machine.Basic
import Clausal.Proofs.Outcome

/-!
# Arguments that are left out

A call may leave out arguments of parameters with a default.  The arguments beyond those that the other
parameters need are spare: as many parameters with a default, from the left, receive one of them, and
the later ones fall back on their defaults (`fallback?`).

`Filled` says of a full list of arguments where each of its values comes from, without following the
way in which it is made; `FirstFailure` says which default keeps it from being made.  One step of the
loop takes a parameter off both (`filled_cons_of_fallback`, `filled_cons_of_supplied`,
`firstFailure_cons`), and the count of the arguments that are left makes sure that every parameter
finds its own (`Supplies`).

Main statement: `arguments_filled_in_order`.
-/

namespace Clausal
namespace Machine

open Clausal.Core (Declaration ForwardParam)
open Outcome

/-! ## Where the values come from -/

/-- How many parameters have a default. -/
def optional (params : List ForwardParam) : Nat := params.countP fun param => param.default.isSome

/-- The default that the parameter at a place falls back on, with `spare` arguments for parameters
with a default: its own, if at least `spare` parameters before it have one. -/
def fallback? (spare : Nat) (params : List ForwardParam) (place : Nat) : Option Core.Expr :=
  if spare ≤ optional (params.take place) then params[place]?.bind (·.default) else none

/-- The places of the parameters that fall back on no default. -/
def supplied (spare : Nat) (params : List ForwardParam) : List Nat :=
  (List.range params.length).filter fun place => (fallback? spare params place).isNone

section Filling

variable (host : Host (Except Fault))

/-- The value of a default, which is evaluated in an empty frame. -/
def defaultValue (default : Core.Expr) : Except Fault Value :=
  ((evalExpr host default).run .empty).map Prod.fst

/-- A full list of arguments: a value for every parameter, which is that of its default where the
parameter falls back on it.  In the other places stand the given arguments, in order and each once. -/
structure Filled (spare : Nat) (params : List ForwardParam) (args full : List Value) : Prop where
  length : full.length = params.length
  defaults : ∀ place default, fallback? spare params place = some default →
    ∃ value, full[place]? = some value ∧ defaultValue host default = .ok value
  others : (supplied spare params).map (full[·]?) = args.map some

/-- The first default, from the left, that is fallen back on and fails. -/
def FirstFailure (spare : Nat) (params : List ForwardParam) (fault : Fault) : Prop :=
  ∃ place default, fallback? spare params place = some default ∧
    defaultValue host default = .error fault ∧
    ∀ earlier < place, ∀ other, fallback? spare params earlier = some other →
      ∃ value, defaultValue host other = .ok value

end Filling

/-! ## One parameter -/

/-- What is spare for the parameters behind one. -/
def spareBehind (spare : Nat) (param : ForwardParam) : Nat :=
  if param.default.isSome then spare - 1 else spare

section Step

variable {host : Host (Except Fault)} {spare : Nat} {param : ForwardParam} {params : List ForwardParam}
  {args full : List Value} {fault : Fault} {default : Core.Expr}

theorem fallback?_zero :
    fallback? spare (param :: params) 0 = if spare = 0 then param.default else none := by
  simp [fallback?, optional]

theorem fallback?_succ (place : Nat) :
    fallback? spare (param :: params) (place + 1)
      = fallback? (spareBehind spare param) params place := by
  simp only [fallback?, optional, spareBehind, List.take_succ_cons, List.countP_cons,
    List.getElem?_cons_succ]
  by_cases given : param.default.isSome = true
  · simp only [given, if_true, Nat.sub_le_iff_le_add]
  · simp only [given, if_false, Nat.add_zero, Bool.false_eq_true]

theorem supplied_cons :
    supplied spare (param :: params)
      = (if (fallback? spare (param :: params) 0).isNone then [0] else [])
        ++ (supplied (spareBehind spare param) params).map (· + 1) := by
  unfold supplied
  rw [List.length_cons, List.range_succ_eq_map, List.filter_cons, List.filter_map]
  simp only [Function.comp_def, Nat.succ_eq_add_one, fallback?_succ]
  split <;> rfl

theorem getElem?_behind (value : Value) (rest : List Value) (places : List Nat) :
    (places.map (· + 1)).map ((value :: rest)[·]?) = places.map (rest[·]?) := by
  simp [Function.comp_def]

/-- A parameter that falls back on its default has the value of it, and takes no argument. -/
theorem filled_cons_of_fallback (falls : fallback? spare (param :: params) 0 = some default) :
    Filled host spare (param :: params) args full ↔
      ∃ value rest, full = value :: rest ∧ defaultValue host default = .ok value ∧
        Filled host (spareBehind spare param) params args rest := by
  -- The arguments go to the parameters behind, whose places are counted from one.
  have places : supplied spare (param :: params)
      = (supplied (spareBehind spare param) params).map (· + 1) := by
    simp [supplied_cons, falls]
  constructor
  · rintro ⟨length, defaults, others⟩
    obtain ⟨value, here, made⟩ := defaults 0 default falls
    cases full with
    | nil => cases here
    | cons first rest =>
        cases here
        refine ⟨_, rest, rfl, made, Nat.succ.inj length, ?_, ?_⟩
        · intro place other falls'
          exact defaults (place + 1) other (by rwa [fallback?_succ])
        · rwa [places, getElem?_behind] at others
  · rintro ⟨value, rest, rfl, made, length, defaults, others⟩
    refine ⟨congrArg (· + 1) length, ?_, ?_⟩
    · intro place other falls'
      cases place with
      | zero =>
          cases falls.symm.trans falls'
          exact ⟨value, rfl, made⟩
      | succ place =>
          rw [fallback?_succ] at falls'
          exact defaults place other falls'
    · rwa [places, getElem?_behind]

/-- Any other parameter has the next argument. -/
theorem filled_cons_of_supplied (keeps : fallback? spare (param :: params) 0 = none) :
    Filled host spare (param :: params) args full ↔
      ∃ value args' rest, args = value :: args' ∧ full = value :: rest ∧
        Filled host (spareBehind spare param) params args' rest := by
  have places : supplied spare (param :: params)
      = 0 :: (supplied (spareBehind spare param) params).map (· + 1) := by
    simp [supplied_cons, keeps]
  constructor
  · rintro ⟨length, defaults, others⟩
    rw [places, List.map_cons] at others
    cases full with
    | nil => cases length
    | cons value rest =>
        cases args with
        | nil => cases others
        | cons first args' =>
            rw [List.map_cons, List.cons.injEq, getElem?_behind] at others
            obtain ⟨here, others⟩ := others
            cases here
            refine ⟨_, args', rest, rfl, rfl, Nat.succ.inj length, ?_, others⟩
            intro place other falls
            exact defaults (place + 1) other (by rwa [fallback?_succ])
  · rintro ⟨value, args', rest, rfl, rfl, length, defaults, others⟩
    refine ⟨congrArg (· + 1) length, ?_, ?_⟩
    · intro place other falls
      cases place with
      | zero => cases keeps.symm.trans falls
      | succ place =>
          rw [fallback?_succ] at falls
          exact defaults place other falls
    · rw [places, List.map_cons, List.map_cons, getElem?_behind, others]
      rfl

/-- The first failure is that of the first parameter, or a later one behind a parameter whose
default, if it is needed, has a value. -/
theorem firstFailure_cons :
    FirstFailure host spare (param :: params) fault ↔
      (∃ default, fallback? spare (param :: params) 0 = some default ∧
        defaultValue host default = .error fault) ∨
      (∀ default, fallback? spare (param :: params) 0 = some default →
        ∃ value, defaultValue host default = .ok value) ∧
        FirstFailure host (spareBehind spare param) params fault := by
  constructor
  · rintro ⟨place, default, falls, failed, before⟩
    cases place with
    | zero => exact .inl ⟨default, falls, failed⟩
    | succ place =>
        rw [fallback?_succ] at falls
        -- The place is behind the first parameter, so the default of the latter, if it is needed, has a
        -- value.
        refine .inr ⟨before 0 (Nat.succ_pos _), place, default, falls, failed, ?_⟩
        intro earlier less other falls'
        exact before (earlier + 1) (Nat.succ_lt_succ less) other (by rwa [fallback?_succ])
  · rintro (⟨default, falls, failed⟩ | ⟨first, place, default, falls, failed, before⟩)
    · exact ⟨0, default, falls, failed, fun _ less => absurd less (Nat.not_lt_zero _)⟩
    · refine ⟨place + 1, default, by rwa [fallback?_succ], failed, ?_⟩
      intro earlier less other falls'
      cases earlier with
      | zero => exact first other falls'
      | succ earlier =>
          rw [fallback?_succ] at falls'
          exact before earlier (Nat.lt_of_succ_lt_succ less) other falls'

/-! ## The loop -/

theorem fillDefaults_cons_of_fallback (falls : fallback? spare (param :: params) 0 = some default) :
    fillDefaults host spare (param :: params) args
      = defaultValue host default >>= fun value =>
          (fillDefaults host (spareBehind spare param) params args).map (value :: ·) := by
  rw [fallback?_zero] at falls
  split at falls
  next none =>
    subst none
    simp only [fillDefaults, falls, defaultValue, spareBehind, Option.isSome_some, if_true,
      Nat.zero_sub]
    cases (evalExpr host default).run Frame.empty <;> rfl
  next => cases falls

theorem fillDefaults_cons_of_supplied (keeps : fallback? spare (param :: params) 0 = none)
    (value : Value) :
    fillDefaults host spare (param :: params) (value :: args)
      = (fillDefaults host (spareBehind spare param) params args).map (value :: ·) := by
  rw [fallback?_zero] at keeps
  cases given : param.default with
  | none =>
      simp only [fillDefaults, given, spareBehind, Option.isSome_none, Bool.false_eq_true, if_false]
      rfl
  | some default =>
      cases spare with
      | zero => simp [given] at keeps
      | succ spare =>
          simp only [fillDefaults, given, spareBehind, Option.isSome_some, if_true,
            Nat.add_sub_cancel]
          rfl

/-- There is an argument for every parameter without a default, and `spare` ones beyond these, but no
more than there are parameters with a default. -/
structure Supplies (spare : Nat) (params : List ForwardParam) (args : List Value) : Prop where
  count : args.length = (params.filter fun param => param.default.isNone).length + spare
  enough : spare ≤ optional params

theorem Supplies.of_fallback (supplies : Supplies spare (param :: params) args)
    (falls : fallback? spare (param :: params) 0 = some default) :
    Supplies (spareBehind spare param) params args := by
  rw [fallback?_zero] at falls
  split at falls
  next none =>
    subst none
    have count := supplies.count
    rw [List.filter_cons_of_neg (by simp [falls])] at count
    simp only [spareBehind, falls, Option.isSome_some, if_true, Nat.zero_sub]
    exact ⟨count, Nat.zero_le _⟩
  next => cases falls

theorem Supplies.of_supplied (supplies : Supplies spare (param :: params) args)
    (keeps : fallback? spare (param :: params) 0 = none) :
    ∃ value args', args = value :: args' ∧ Supplies (spareBehind spare param) params args' := by
  have ⟨count, enough⟩ := supplies
  rw [fallback?_zero] at keeps
  simp only [optional, List.countP_cons] at enough
  have one_less : ∃ left, args.length = left + 1 ∧
      left = (params.filter fun param => param.default.isNone).length + spareBehind spare param ∧
      spareBehind spare param ≤ optional params := by
    unfold spareBehind optional
    cases given : param.default with
    | none =>
        rw [List.filter_cons_of_pos (by simp [given]), List.length_cons] at count
        simp only [given, Option.isSome_none, Bool.false_eq_true, if_false] at enough ⊢
        exact ⟨_, by omega, rfl, enough⟩
    | some default =>
        -- The argument that this parameter takes is a spare one.
        have some_spare : spare ≠ 0 := fun none => by simp [none, given] at keeps
        rw [List.filter_cons_of_neg (by simp [given])] at count
        simp only [given, Option.isSome_some, if_true] at enough ⊢
        exact ⟨_, by omega, rfl, by omega⟩
  obtain ⟨left, length, count', enough'⟩ := one_less
  obtain ⟨value, args', rfl⟩ := List.exists_cons_of_length_eq_add_one length
  exact ⟨value, args', rfl, (Nat.succ.inj length).trans count', enough'⟩

theorem Supplies.nil (supplies : Supplies spare [] args) : args = [] := by
  have ⟨count, enough⟩ := supplies
  simp only [optional, List.countP_nil, List.filter_nil, List.length_nil] at count enough
  exact List.eq_nil_of_length_eq_zero (by omega)

theorem fallback?_nil (spare place : Nat) : fallback? spare [] place = none := by
  simp [fallback?]

/-- Filling in defaults gives the full list of arguments. -/
theorem fillDefaults_eq_ok_iff (supplies : Supplies spare params args) :
    fillDefaults host spare params args = .ok full ↔ Filled host spare params args full := by
  -- Each step takes one parameter off both sides; what is known of the arguments is kept.
  induction params generalizing spare args full with
  | nil =>
      cases supplies.nil
      constructor
      · intro given
        cases given
        exact ⟨rfl, fun place default falls => by simp [fallback?_nil] at falls, rfl⟩
      · rintro ⟨length, -, -⟩
        rw [List.eq_nil_of_length_eq_zero length]
        rfl
  | cons param params ih =>
      cases falls : fallback? spare (param :: params) 0 with
      | some default =>
          have behind := supplies.of_fallback falls
          rw [fillDefaults_cons_of_fallback falls, filled_cons_of_fallback falls, bind_eq_ok]
          constructor
          · rintro ⟨value, made, given⟩
            obtain ⟨rest, others, rfl⟩ := map_eq_ok.mp given
            exact ⟨value, rest, rfl, made, (ih behind).mp others⟩
          · rintro ⟨value, rest, rfl, made, filled⟩
            exact ⟨value, made, map_eq_ok.mpr ⟨rest, (ih behind).mpr filled, rfl⟩⟩
      | none =>
          obtain ⟨value, args', rfl, behind⟩ := supplies.of_supplied falls
          rw [fillDefaults_cons_of_supplied falls, filled_cons_of_supplied falls, map_eq_ok]
          constructor
          · rintro ⟨rest, given, rfl⟩
            exact ⟨value, args', rest, rfl, rfl, (ih behind).mp given⟩
          · rintro ⟨_, _, rest, same, rfl, filled⟩
            cases same
            exact ⟨rest, (ih behind).mpr filled, rfl⟩

/-- Filling in defaults fails where the first of the needed defaults does that fails. -/
theorem fillDefaults_eq_error_iff (supplies : Supplies spare params args) :
    fillDefaults host spare params args = .error fault ↔ FirstFailure host spare params fault := by
  induction params generalizing spare args with
  | nil =>
      constructor
      · intro failed
        cases failed
      · rintro ⟨place, default, falls, -⟩
        rw [fallback?_nil] at falls
        cases falls
  | cons param params ih =>
      rw [firstFailure_cons]
      cases falls : fallback? spare (param :: params) 0 with
      | some default =>
          rw [fillDefaults_cons_of_fallback falls]
          cases made : defaultValue host default with
          | error first => simp [made]
          | ok value => simp [made, map_eq_error, ih (supplies.of_fallback falls)]
      | none =>
          obtain ⟨value, args', rfl, behind⟩ := supplies.of_supplied falls
          rw [fillDefaults_cons_of_supplied falls, map_eq_error, ih behind]
          simp

/-- With a spare argument for every parameter that has a default, nothing is filled in. -/
theorem fillDefaults_of_length_eq (count : args.length = params.length)
    (enough : optional params ≤ spare) : fillDefaults host spare params args = .ok args := by
  induction params generalizing spare args with
  | nil =>
      rw [List.eq_nil_of_length_eq_zero count]
      rfl
  | cons param params ih =>
      cases args with
      | nil => cases count
      | cons value args' =>
          have least : optional params + (if param.default.isSome then 1 else 0) ≤ spare := by
            rwa [optional, List.countP_cons] at enough
          -- A default is needed only once nothing is spare, which `least` excludes.
          have keeps : fallback? spare (param :: params) 0 = none := by
            rw [fallback?_zero]
            cases given : param.default with
            | none => exact ite_self _
            | some default =>
                rw [given] at least
                exact if_neg (Nat.ne_of_gt (Nat.lt_of_lt_of_le (Nat.succ_pos _) least))
          have behind : optional params ≤ spareBehind spare param := by
            unfold spareBehind
            split at least
            next given =>
              rw [if_pos given]
              exact Nat.le_sub_of_add_le least
            next given =>
              rw [if_neg given]
              exact least
          rw [fillDefaults_cons_of_supplied keeps, ih (Nat.succ.inj count) behind]
          rfl

end Step

/-! ## The arguments of a call -/

section Calls

variable {host : Host (Except Fault)} {decl : Declaration} {args : List Value}

theorem arity_eq (forward : Core.Forward) :
    forward.arity = forward.required + optional forward.params := by
  unfold Core.Forward.arity Core.Forward.required optional
  induction forward.params with
  | nil => rfl
  | cons param params ih =>
      rw [List.length_cons, List.countP_cons, ih]
      cases given : param.default <;> simp [given] <;> omega

theorem supplies_of_accepts (least : decl.forward.required ≤ args.length)
    (most : args.length ≤ decl.forward.arity) :
    Supplies (args.length - decl.forward.required) decl.forward.params args := by
  have all := arity_eq decl.forward
  exact ⟨by unfold Core.Forward.required at *; omega, by omega⟩

/-- A call with an acceptable number of arguments fills in defaults. -/
theorem completeArgs_eq_fillDefaults (least : decl.forward.required ≤ args.length)
    (most : args.length ≤ decl.forward.arity) :
    completeArgs host decl args
      = fillDefaults host (args.length - decl.forward.required) decl.forward.params args := by
  have accepted : decl.forward.accepts args.length = true := Core.Forward.accepts_iff.mpr ⟨least, most⟩
  unfold completeArgs
  rw [accepted, Bool.not_true, if_neg Bool.false_ne_true]
  split
  next all =>
    have enough := arity_eq decl.forward
    exact (fillDefaults_of_length_eq all (by omega)).symm
  next => rfl

end Calls

/-- A call is refused for the number of its arguments exactly when these are fewer than the parameters
without a default or more than all parameters.  Otherwise every parameter receives its value as `Filled`
says, unless one of the defaults that are needed fails: then the first of them is the result. -/
theorem arguments_filled_in_order (host : Host (Except Fault)) (decl : Declaration)
    (args : List Value) :
    (args.length < decl.forward.required ∨ decl.forward.arity < args.length →
      completeArgs host decl args = .error (.arity (host.owner ++ "." ++ decl.name)
        (expectedArity decl) args.length)) ∧
    (decl.forward.required ≤ args.length ∧ args.length ≤ decl.forward.arity →
      (∀ full, completeArgs host decl args = .ok full ↔
        Filled host (args.length - decl.forward.required) decl.forward.params args full) ∧
      ∀ fault, completeArgs host decl args = .error fault ↔
        FirstFailure host (args.length - decl.forward.required) decl.forward.params fault) := by
  constructor
  · intro outside
    have refused : decl.forward.accepts args.length = false := by
      rw [Bool.eq_false_iff, ne_eq, Core.Forward.accepts_iff]
      omega
    unfold completeArgs
    rw [refused]
    rfl
  · rintro ⟨least, most⟩
    have supplies := supplies_of_accepts least most
    rw [completeArgs_eq_fillDefaults least most]
    exact ⟨fun full => fillDefaults_eq_ok_iff supplies, fun fault => fillDefaults_eq_error_iff supplies⟩

/-- A function of three parameters, of which the first and the last have a default. -/
def tripleDecl : Declaration where
  name := "f"
  signature := { name := "f", params := [], returnType := .base .any, constraints := [] }
  forward := { name := "f", params := [{ name := "a", slot := 0, default := some (.literal (.int 1)) },
    { name := "b", slot := 1, default := none },
    { name := "c", slot := 2, default := some (.literal (.int 3)) }] }
  implementations := []
  bindings := []

/-- Code that calls no functions. -/
def aloneHost : Host (Except Fault) where
  owner := "Main"
  bindings := []
  registry := []
  schemas := []
  call _ name _ := .error (.undefinedFunction name)

/-- A single argument goes to the parameter in the middle, and the others fall back on their defaults. -/
theorem arguments_filled_in_order_triple :
    tripleDecl.forward.required ≤ [Value.int 9].length ∧
      [Value.int 9].length ≤ tripleDecl.forward.arity ∧
      completeArgs aloneHost tripleDecl [.int 9] = .ok [.int 1, .int 9, .int 3] := by
  have least : tripleDecl.forward.required ≤ [Value.int 9].length := by decide
  have most : [Value.int 9].length ≤ tripleDecl.forward.arity := by decide
  obtain ⟨given, -⟩ := (arguments_filled_in_order aloneHost tripleDecl [.int 9]).2 ⟨least, most⟩
  refine ⟨least, most, (given _).mpr ⟨rfl, ?_, rfl⟩⟩
  intro place default falls
  match place with
  | 0 =>
      cases falls
      exact ⟨.int 1, rfl, rfl⟩
  | 1 => cases falls
  | 2 =>
      cases falls
      exact ⟨.int 3, rfl, rfl⟩
  | place + 3 => cases falls

end Machine
end Clausal
