import Mathlib.Tactic.FinCases
import Clausal.Proofs.Lowering.Program

/-!
# The calling convention of single bodies

A function with a single body is called in three stages.  The values of its `guard[..]` parameters
are tested, and the call is refused if one of them is of the wrong type; the values of its
`validate[..]` parameters are handed to their modules, in order, up to the first that has an
objection; and the body runs with what the modules have made of the values.

The convention is stated on the parameters of the lowered function and the arguments, paired in
order, without a word about guards and statements of the code.  What the parameters receive is `handOver`,
and `AddressedParams.bindParams_eq` says that the tree binds just this.  Main statement:
`single_body_convention`.
-/

namespace Clausal
namespace Lowering

open Clausal.Core (Bindings Declaration)
open Clausal.Machine (Dispatch Frame Host)
open Clausal.Meaning (Env Site)
open Outcome

/-! ## What is asked of an argument -/

/-- An argument is of the base type that a `guard[..]` parameter asks for, as the constraints resolve
it.  The other parameters ask for nothing. -/
def Admits (constraints : List TypeConstraint) (param : ParamSpec) (value : Value) : Prop :=
  param.mode = .guard →
    ∃ base, param.type.resolve? constraints = some (.base base) ∧ Meaning.ofBase base value = true

/-- What the body receives for an argument: what the module of a `validate[..]` parameter makes of
it, and else the argument itself. -/
def received (registry : Registry) (owner : String) (param : ParamSpec) (value : Value) :
    Except Fault Value :=
  match param.mode, checker? owner param.type with
  | .validate, some checker =>
      match registry.get? checker with
      | none => .error (.unknownModule checker)
      | some valueModule =>
          match valueModule.validate value with
          | .ok accepted => .ok accepted
          | .error diagnostic => .error (.validation param.name value diagnostic)
  | _, _ => .ok value

/-- What the body receives for its parameters, which are asked in order. -/
def handOver (registry : Registry) (owner : String) (pairs : List (ParamSpec × Value)) :
    Except Fault (List Value) :=
  pairs.mapM fun pair => received registry owner pair.1 pair.2

/-- A frame that holds one value for each parameter and nothing else. -/
def boundFrame (params : List ParamSpec) (values : List Value) : Frame :=
  (params.zip values).map fun (param, value) => (param.slot, value)

/-- The environment that binds the names of parameters; the last one comes first. -/
def boundEnv (params : List ParamSpec) (values : List Value) : Env :=
  ((params.zip values).map fun (param, value) => (param.name, value)).reverse

section HandOver

variable {registry : Registry} {owner : String} {pairs before after : List (ParamSpec × Value)}
variable {values : List Value}

theorem handOver_cons (pair : ParamSpec × Value) (pairs : List (ParamSpec × Value)) :
    handOver registry owner (pair :: pairs) = do
      let value ← received registry owner pair.1 pair.2
      let values ← handOver registry owner pairs
      return value :: values := by
  rw [handOver, List.mapM_cons]
  rfl

/-- The parameters before an argument receive theirs first. -/
theorem handOver_split (before : List (ParamSpec × Value)) (pair : ParamSpec × Value)
    (after : List (ParamSpec × Value)) {α : Type} (next : List Value → Except Fault α) :
    handOver registry owner (before ++ pair :: after) >>= next
      = (do
          let earlier ← handOver registry owner before
          let here ← received registry owner pair.1 pair.2
          let later ← handOver registry owner after
          next (earlier ++ here :: later)) := by
  simp only [handOver, List.mapM_append, List.mapM_cons, bind_assoc, pure_bind]

theorem handOver_of_received
    (all : List.Forall₂ (fun pair output => received registry owner pair.1 pair.2 = .ok output)
      pairs values) : handOver registry owner pairs = .ok values := by
  induction all with
  | nil => rfl
  | cons here _ ih =>
      rw [handOver_cons, here, ok_bind, ih]
      rfl

/-- The first objection is the outcome. -/
theorem handOver_of_refused {pair : ParamSpec × Value} {fault : Fault}
    (earlier : ∀ pair ∈ before, ∃ v, received registry owner pair.1 pair.2 = .ok v)
    (objection : received registry owner pair.1 pair.2 = .error fault) :
    handOver registry owner (before ++ pair :: after) = .error fault := by
  induction before with
  | nil =>
      rw [List.nil_append, handOver_cons, objection]
      rfl
  | cons first before ih =>
      rw [List.forall_mem_cons] at earlier
      rcases earlier with ⟨⟨v, accepted⟩, others⟩
      rw [List.cons_append, handOver_cons, accepted, ok_bind, ih others]
      rfl

theorem length_of_handOver (h : handOver registry owner pairs = .ok values) :
    values.length = pairs.length := by
  induction pairs generalizing values with
  | nil =>
      cases h
      rfl
  | cons pair pairs ih =>
      rw [handOver_cons] at h
      rcases bind_eq_ok.mp h with ⟨_, -, h⟩
      rcases bind_eq_ok.mp h with ⟨others, rest, h⟩
      cases h
      simp [ih rest]

end HandOver

section Parameters

variable {f : Surface.FunctionDef} {position : Nat} {t t' : Bindings}
variable {params : List Surface.Param} {specs : List ParamSpec} {values : List Value}

variable {constraints : List TypeConstraint}

theorem passes_iff {param : Surface.Param} {spec : ParamSpec} {value : Value}
    (bounds : LoweredConstraints f.constraints constraints)
    (type : lowerType (typeVars f.constraints) (describe param.type).type = .ok spec.type)
    (mode : spec.mode = (describe param.type).mode) :
    Meaning.passes f param value = true ↔ Admits constraints spec value := by
  unfold Admits
  rw [passes_eq bounds type, ← mode]
  cases spec.mode with
  | none => simp
  | validate => simp
  | guard =>
      cases spec.type.resolve? constraints with
      | none => simp
      | some resolved => cases resolved <;> simp

theorem AddressedParams.passesAll_iff (h : AddressedParams f position t params specs t')
    (bounds : LoweredConstraints f.constraints constraints) :
    Meaning.passesAll f params values = true ↔
      ∀ pair ∈ specs.zip values, Admits constraints pair.1 pair.2 := by
  induction h generalizing values with
  | nil => simp [Meaning.passesAll]
  | cons _ _ type mode _ _ ih =>
      cases values with
      | nil => simp [Meaning.passesAll]
      | cons value values =>
          simp only [Meaning.passesAll, Bool.and_eq_true, List.zip_cons_cons, List.forall_mem_cons]
          exact and_congr (passes_iff bounds type mode) ih

theorem validated_eq {site : Site} {param : Surface.Param} {spec : ParamSpec}
    (name : spec.name = param.name)
    (type : lowerType (typeVars f.constraints) (describe param.type).type = .ok spec.type)
    (mode : spec.mode = (describe param.type).mode) (value : Value) :
    Meaning.validated site f param value = received site.registry site.owner spec value := by
  unfold Meaning.validated received
  rw [validator_eq type, ← mode, ← name]
  cases spec.mode with
  | none => rfl
  | guard => rfl
  | validate => cases checker? site.owner spec.type <;> rfl

theorem boundEnv_cons (spec : ParamSpec) (specs : List ParamSpec) (value : Value)
    (values : List Value) :
    boundEnv (spec :: specs) (value :: values) = boundEnv specs values ++ [(spec.name, value)] := by
  simp [boundEnv]

/-- Binding the parameters is handing the arguments over and binding what comes of them. -/
theorem AddressedParams.bindParams_eq (h : AddressedParams f position t params specs t') (site : Site)
    (values : List Value) :
    Meaning.bindParams site f params values
      = (handOver site.registry site.owner (specs.zip values)).map (boundEnv specs) := by
  induction h generalizing values with
  | nil => cases values <;> rfl
  | @cons _ _ param params spec specs _ _ name _ type mode _ _ ih =>
      cases values with
      | nil => rfl
      | cons value values =>
          simp only [Meaning.bindParams]
          rw [validated_eq name type mode, ih values, List.zip_cons_cons, handOver_cons]
          cases received site.registry site.owner spec value with
          | error fault => rfl
          | ok output =>
              cases handOver site.registry site.owner (specs.zip values) with
              | error fault => rfl
              | ok outputs =>
                  rw [← name]
                  exact congrArg Except.ok (boundEnv_cons spec specs output outputs).symm

/-- Arguments that the body receives are bound to the names of their parameters. -/
theorem AddressedParams.bindParams_of_received {site : Site}
    (h : AddressedParams f position t params specs t') {outputs : List Value}
    (all : List.Forall₂ (fun pair output =>
      received site.registry site.owner pair.1 pair.2 = .ok output) (specs.zip values) outputs) :
    Meaning.bindParams site f params values = .ok (boundEnv specs outputs) := by
  rw [h.bindParams_eq, handOver_of_received all]
  rfl

/-- The first argument that meets an objection ends the binding. -/
theorem AddressedParams.bindParams_of_refused {site : Site}
    (h : AddressedParams f position t params specs t') {before after : List (ParamSpec × Value)}
    {refused : ParamSpec} {argument : Value} {fault : Fault}
    (split : specs.zip values = before ++ (refused, argument) :: after)
    (earlier : ∀ pair ∈ before, ∃ v, received site.registry site.owner pair.1 pair.2 = .ok v)
    (objection : received site.registry site.owner refused argument = .error fault) :
    Meaning.bindParams site f params values = .error fault := by
  rw [h.bindParams_eq, split, handOver_of_refused earlier objection]
  rfl

theorem AddressedParams.le_slot (h : AddressedParams f position t params specs t')
    {spec : ParamSpec} (member : spec ∈ specs) : position ≤ spec.slot := by
  rcases List.mem_iff_getElem?.mp member with ⟨index, at_index⟩
  rw [h.getElem? at_index]
  exact Nat.le_add_right position index

/-- No parameter hides another in the frame of all parameters. -/
theorem AddressedParams.get?_boundFrame (h : AddressedParams f position t params specs t') :
    ∀ pair ∈ specs.zip values, (boundFrame specs values).get? pair.1.slot = some pair.2 := by
  induction h generalizing values with
  | nil => simp
  | @cons position _ _ _ spec specs _ _ _ slot _ _ _ rest ih =>
      cases values with
      | nil => simp
      | cons value values =>
          intro pair member
          rw [List.zip_cons_cons] at member
          have frame : boundFrame (spec :: specs) (value :: values)
              = (boundFrame specs values).set spec.slot value := rfl
          rw [frame]
          rcases List.mem_cons.mp member with rfl | member
          · exact Frame.get?_set_self _ _ _
          -- Later parameters have later slots.
          · have later : position + 1 ≤ pair.1.slot := rest.le_slot (List.of_mem_zip member).1
            have differs : pair.1.slot ≠ spec.slot := slot ▸ Nat.ne_of_gt later
            rw [Frame.get?_set_of_ne _ value differs]
            exact ih pair member

theorem matches_of_get? {frame : Frame} (count : values.length = specs.length)
    (holds : ∀ pair ∈ specs.zip values, frame.get? pair.1.slot = some pair.2) :
    Matches frame (paramNames specs) (boundEnv specs values) := by
  unfold Matches paramNames boundEnv
  rw [List.forall₂_reverse_iff]
  induction specs generalizing values with
  | nil => simp
  | cons spec specs ih =>
      cases values with
      | nil => simp at count
      | cons value values =>
          rw [List.zip_cons_cons, List.forall_mem_cons] at holds
          exact .cons ⟨rfl, holds.1⟩ (ih (by simpa using count) holds.2)

theorem AddressedParams.matches_boundFrame (h : AddressedParams f position t params specs t')
    (count : values.length = specs.length) :
    Matches (boundFrame specs values) (paramNames specs) (boundEnv specs values) :=
  matches_of_get? count h.get?_boundFrame

end Parameters

/-! ## One call -/

section Call

variable {f : Surface.FunctionDef} {spec : FunctionSpec} {owner : String} {decl : Declaration}
variable {body : Core.Block} {machine : Machine}

/-- A function with one implementation is entered there or not at all. -/
theorem invoke_of_single {notify : Dispatch → Except Fault Unit}
    {call : (owner name : String) → List Value → Except Fault Value}
    {implementation : Core.Implementation} {args : List Value} {admitted : Option Frame}
    (only : decl.implementations = [implementation]) (full : args.length = decl.arity)
    (decided : Machine.admit? (machine.hostOf call owner decl) implementation args = .ok admitted) :
    machine.invoke notify call owner decl args
      = Machine.finish (machine.hostOf call owner decl) notify decl args
          (admitted.map fun frame => (0, implementation, frame)) := by
  rw [Machine.invoke_eq, Machine.completeArgs_of_length_eq _ full, ok_bind, only,
    Machine.select?_single decided 0, ok_bind]

/-- A call of a single body, in terms of the tree: it is refused without being entered, or it is
entered, and the arguments are bound before the body runs. -/
theorem AddressedFunction.single_call_eq (h : AddressedFunction f spec)
    (single : spec.body = .single body) (compiled : Compile.compileFunction owner spec = .ok decl)
    (found : machine.program.function? owner f.name = some decl)
    (notify : Dispatch → Except Fault Unit) (remaining : Nat) {args : List Value}
    (full : args.length = f.params.length) {site : Site}
    (here : site = siteOf (machine.hostOf (machine.callWithin notify remaining) owner decl)) :
    machine.callWithin notify (remaining + 1) owner f.name args
      = if Meaning.passesAll f f.params args then do
          notify ⟨owner, f.name, args.length, 0⟩
          let env ← Meaning.bindParams site f f.params args
          Meaning.evalStmts site env .nil f.body
        else .error (.noClause (owner ++ "." ++ f.name ++ "/" ++ toString args.length) args) := by
  subst here
  rcases Compile.compileFunction_cases compiled with ⟨implementations, rfl, shape⟩
  rcases h.code with ⟨t, params, code⟩
  have arity : args.length = (Compile.declaration spec implementations).arity := by
    simp [Compile.declaration, Declaration.arity, Core.Forward.arity, full, params.length_eq]
  have name : (Compile.declaration spec implementations).name = f.name := h.name
  cases shape with
  | clauses written _ =>
      rw [single] at written
      cases written
  | @single _ guard checks written guarded checked =>
      rw [written] at code
      cases code with
      | @single block _ _ stmts =>
          let host := machine.hostOf (machine.callWithin notify remaining) owner
            (Compile.declaration spec [⟨spec.params.map fun p => .bind p.slot, guard,
              checks ++ orNil block⟩])
          have labels : ∀ param ∈ spec.params, host.bindings.nameOf param.slot = param.name :=
            fun _ member => h.nameOf member
          rcases params.single_agrees h.constraints stmts labels guarded checked full with
            ⟨frame, admitted, runs⟩
          simp only [Machine.callWithin, Machine.dispatch, found]
          rw [invoke_of_single rfl arity admitted]
          -- The only implementation is entered if all arguments pass.
          cases Meaning.passesAll f f.params args with
          | true =>
              simp only [if_true, Option.map_some, Machine.finish, name, ← arity]
              rw [runs]
              rfl
          | false =>
              simp only [Machine.finish, name, ← arity]
              rfl

/-- The body of a single implementation, in terms of the code: what is bound to the names of the
parameters stands in their slots. -/
theorem AddressedFunction.evalStmts_boundEnv (h : AddressedFunction f spec)
    (single : spec.body = .single body) (host : Machine.Host (Except Fault)) {outputs : List Value}
    (count : outputs.length = spec.params.length) :
    Meaning.evalStmts (siteOf host) (boundEnv spec.params outputs) .nil f.body
      = (Machine.evalBlock host .nil body (boundFrame spec.params outputs)).map Prod.fst := by
  rcases h.code with ⟨t, params, code⟩
  rw [single] at code
  cases code with
  | @single block _ _ stmts =>
      have below : Below (paramNames spec.params) t.length :=
        params.namesBelow.mono params.length_le
      have runs := (stmts.agrees host .nil below (params.matches_boundFrame count)).outcome_eq
      rw [evalBlock_orNil]
      exact runs.symm

/-- A call of a single body, in terms of the code: the arguments are handed over, and the body runs with
what the parameters receive. -/
theorem AddressedFunction.single_call_handOver (h : AddressedFunction f spec)
    (single : spec.body = .single body) (compiled : Compile.compileFunction owner spec = .ok decl)
    (found : machine.program.function? owner f.name = some decl)
    (remaining : Nat) {args : List Value} (full : args.length = spec.params.length)
    (admitted : ∀ pair ∈ spec.params.zip args, Admits spec.constraints pair.1 pair.2) :
    let host : Machine.Host (Except Fault) :=
      machine.hostOf (machine.callWithin (fun _ => pure ()) remaining) owner decl
    machine.callWithin (fun _ => pure ()) (remaining + 1) owner f.name args
      = (do
          let outputs ← handOver machine.registry owner (spec.params.zip args)
          (Machine.evalBlock host .nil body (boundFrame spec.params outputs)).map Prod.fst) := by
  intro host
  rcases h.code with ⟨_, params, _⟩
  have count : args.length = f.params.length := full.trans params.length_eq
  have passed : Meaning.passesAll f f.params args = true :=
    (params.passesAll_iff h.constraints).mpr admitted
  have bound : Meaning.bindParams (siteOf host) f f.params args
      = (handOver machine.registry owner (spec.params.zip args)).map (boundEnv spec.params) :=
    params.bindParams_eq (siteOf host) args
  rw [h.single_call_eq single compiled found _ remaining count rfl, if_pos passed, pure_bind, bound]
  -- What was received is bound on both sides: to names in the tree, to slots in the code.
  cases handed : handOver machine.registry owner (spec.params.zip args) with
  | error fault => rfl
  | ok outputs =>
      have length : outputs.length = spec.params.length := by
        rw [length_of_handOver handed, List.length_zip, full, Nat.min_self]
      exact h.evalStmts_boundEnv single host length

/-- The calling convention of functions with a single body, for a call with all arguments that is
made below the depth limit.

1. If an argument is not of the type that its `guard[..]` parameter asks for, no clause matches.  This
   is so for every `notify`, which is told of a function that is entered, so nothing of it runs.
2. Otherwise the function is entered, and the first parameter whose module is missing or refuses
   the argument ends the call.
3. Otherwise the body runs with what each parameter has received in the slot of the parameter, and an
   empty body gives `nil`. -/
theorem single_body_convention (lowered : lowerFunction f = .ok spec)
    (single : spec.body = .single body) (compiled : Compile.compileFunction owner spec = .ok decl)
    (found : machine.program.function? owner f.name = some decl)
    (notify : Dispatch → Except Fault Unit) (remaining : Nat) {args : List Value}
    (full : args.length = f.params.length) :
    let outcome := machine.callWithin notify (remaining + 1) owner f.name args
    let entered := notify ⟨owner, f.name, args.length, 0⟩
    let host := machine.hostOf (machine.callWithin notify remaining) owner decl
    ((∃ pair ∈ spec.params.zip args, ¬ Admits spec.constraints pair.1 pair.2) →
      outcome = .error
        (.noClause (owner ++ "." ++ f.name ++ "/" ++ toString args.length) args)) ∧
    ((∀ pair ∈ spec.params.zip args, Admits spec.constraints pair.1 pair.2) →
      (∀ before param argument after fault,
        spec.params.zip args = before ++ (param, argument) :: after →
        (∀ pair ∈ before, ∃ v, received machine.registry owner pair.1 pair.2 = .ok v) →
        received machine.registry owner param argument = .error fault →
        outcome = entered >>= fun _ => .error fault) ∧
      (∀ outputs,
        List.Forall₂ (fun pair output => received machine.registry owner pair.1 pair.2 = .ok output)
          (spec.params.zip args) outputs →
        outcome = (entered >>= fun _ =>
          (Machine.evalBlock host .nil body (boundFrame spec.params outputs)).map Prod.fst) ∧
        (f.body = [] → outcome = entered >>= fun _ => .ok .nil))) := by
  intro outcome entered host
  have h := lowerFunction_addressed lowered
  -- One equation for the whole call: what is asked of the arguments, what is bound, and the body.
  have equation := h.single_call_eq single compiled found notify remaining full rfl
  rcases h.code with ⟨_, params, _⟩
  rw [← params.passesAll_iff h.constraints]
  refine ⟨?_, ?_⟩
  · rintro ⟨pair, member, refused⟩
    have fails : Meaning.passesAll f f.params args = false := by
      rw [Bool.eq_false_iff, ne_eq, params.passesAll_iff h.constraints]
      intro all
      exact refused (all pair member)
    rw [fails] at equation
    exact equation
  · intro passed
    rw [passed] at equation
    refine ⟨?_, ?_⟩
    · intro before param argument after fault split earlier objection
      have stopped : Meaning.bindParams (siteOf host) f f.params args = .error fault :=
        params.bindParams_of_refused split earlier objection
      rw [stopped] at equation
      exact equation
    · intro outputs all
      have bound : Meaning.bindParams (siteOf host) f f.params args
          = .ok (boundEnv spec.params outputs) := params.bindParams_of_received all
      rw [bound] at equation
      refine ⟨?_, ?_⟩
      · have count : outputs.length = spec.params.length := by
          rw [← all.length_eq, List.length_zip, full, params.length_eq, Nat.min_self]
        rw [← h.evalStmts_boundEnv single host count]
        exact equation
      · intro empty
        rw [empty] at equation
        exact equation

/-- A function that asks for an integer under the name of a type variable, for two validations and
for nothing in its last parameter. -/
def bookFunction : Surface.FunctionDef :=
  let s := Span.synthetic
  let name := Surface.Expr.ident s
  let asks (mode type : String) := Surface.Expr.index s (name mode) [name type]
  { name := "book", returnType := none, span := s
    constraints := [⟨"T", name "integer", s⟩]
    params := [⟨"seats", asks "guard" "T", s⟩, ⟨"level", asks "validate" "Level", s⟩,
      ⟨"owner", asks "validate" "self", s⟩, ⟨"note", name "any", s⟩]
    body := [.expr (.tuple s [name "note", name "owner", name "level", name "seats"])] }

/-- The modules that the parameters of `bookFunction` name; both make atoms of texts. -/
def bookRegistry : Registry :=
  [("Level", .atoms ["low", "high"]), ("Main", .atoms ["alice"])]

/-- One call for each stage: refused by a guard, refused by the second validation, and run. -/
theorem single_body_convention_bookFunction :
    ∃ program machine, Compile.compileFile "Main" ⟨[.member (.function bookFunction)], .synthetic⟩
        = .ok program ∧
      Machine.build program bookRegistry 4 = .ok machine ∧
      (let wrong := [Value.text "two", .text "mid", .text "bob", .nil]
       machine.call "Main" "book" wrong = .error (.noClause "Main.book/4" wrong)) ∧
      (∃ diagnostic, machine.call "Main" "book" [.int 2, .text "low", .text "bob", .nil]
        = .error (.validation "owner" (.text "bob") diagnostic)) ∧
      machine.call "Main" "book" [.int 2, .text "low", .text "alice", .nil]
        = .ok (.tuple [.nil, .atom "alice", .atom "low", .int 2]) := by
  refine ⟨_, _, rfl, rfl, ?_, ?_, ?_⟩
  · refine (single_body_convention (f := bookFunction) rfl rfl rfl rfl (fun _ => pure ()) 3 rfl).1 ?_
    refine ⟨_, List.mem_cons_self, ?_⟩
    intro admits
    rcases admits rfl with ⟨base, resolved, holds⟩
    cases resolved
    cases holds
  · refine ⟨_, ((single_body_convention (f := bookFunction) rfl rfl rfl rfl (fun _ => pure ()) 3
      rfl).2 ?_).1 [(_, .int 2), (_, .text "low")] _ (.text "bob") [(_, .nil)] _ rfl ?_ rfl⟩
    · intro pair member
      fin_cases member
      · exact fun _ => ⟨.integer, rfl, rfl⟩
      · exact nofun
      · exact nofun
      · exact nofun
    · intro pair member
      fin_cases member
      · exact ⟨.int 2, rfl⟩
      · exact ⟨.atom "low", rfl⟩
  · refine (((single_body_convention (f := bookFunction) rfl rfl rfl rfl (fun _ => pure ()) 3
      rfl).2 ?_).2 [.int 2, .atom "low", .atom "alice", .nil] ?_).1
    · intro pair member
      fin_cases member
      · exact fun _ => ⟨.integer, rfl, rfl⟩
      · exact nofun
      · exact nofun
      · exact nofun
    · exact .cons rfl (.cons rfl (.cons rfl (.cons rfl .nil)))

end Call

end Lowering
end Clausal
