import Clausal.Proofs.Structs.Revalidation

/-!
# Entrances to a struct

A map becomes a record of a struct in four ways: by the functions `new` and `validate` of its module, by
the value module that is registered under its name, and by a parameter that asks for `validate[..]` of it.
The functions look the struct up among the schemas of a machine, the other two among its modules; building
a machine fills both (`exists_boundSchema`).

A call that hands a value to such a parameter is a `ParameterCall`.  Its parameters receive their arguments
in order (`handOver`), and the body runs with what they have received (`ParameterCall.call_eq`).

Main statement: `entrances_agree`.
-/

namespace Clausal

namespace Machine

open Clausal.Core (Declaration RecordDef)
open Clausal.Compile (compileFile)
open Lowering (Admits boundFrame handOver lowerFunction received)
open Outcome

/-! ## Calls that reach a parameter -/

/-- What the body of a function can reach in the first call on a machine. -/
def firstHost (machine : Machine) (owner : String) (decl : Declaration) : Host (Except Fault) :=
  machine.hostOf (machine.callWithin (fun _ => pure ()) (machine.maxDepth - 1)) owner decl

/-- A call of a function of a file that hands a value to a parameter which asks for `validate[..]` of a
struct.  The arguments may leave out what has a default, and the `guard[..]` parameters have no objection. -/
structure ParameterCall (defaultModule : String) (file : Surface.SourceFile) (machine : Machine)
    (struct : String) (value : Value) where
  owner : String
  f : Surface.FunctionDef
  spec : FunctionSpec
  decl : Declaration
  args : List Value
  /-- The parameters before the one that asks for the struct, with their full arguments. -/
  before : List (ParamSpec × Value)
  param : ParamSpec
  after : List (ParamSpec × Value)
  written : f ∈ Meaning.functionsAmong (Meaning.membersOf defaultModule owner file.items)
  lowered : lowerFunction f = .ok spec
  found : machine.program.function? owner f.name = some decl
  params : spec.params = before.map Prod.fst ++ param :: after.map Prod.fst
  mode : param.mode = .validate
  asked : Lowering.checker? owner param.type = some struct
  completed : completeArgs (machine.firstHost owner decl) decl args
    = .ok (before.map Prod.snd ++ value :: after.map Prod.snd)
  admitted : ∀ pair ∈ before ++ after, Admits spec.constraints pair.1 pair.2

namespace ParameterCall

variable {defaultModule : String} {file : Surface.SourceFile} {machine : Machine} {struct : String}
  {value : Value}

/-- The full arguments of the call. -/
def full (call : ParameterCall defaultModule file machine struct value) : List Value :=
  call.before.map Prod.snd ++ value :: call.after.map Prod.snd

/-- What comes of the call if the parameter receives `given`: the parameters before it receive their
arguments first, those behind it afterwards, and the body runs with all that was received. -/
def goesOn (call : ParameterCall defaultModule file machine struct value) (body : Core.Block)
    (given : Except Fault Value) : Except Fault Value := do
  let earlier ← handOver machine.registry call.owner call.before
  let here ← given
  let later ← handOver machine.registry call.owner call.after
  let frame := boundFrame call.spec.params (earlier ++ here :: later)
  (evalBlock (machine.firstHost call.owner call.decl) .nil body frame).map Prod.fst

theorem zip_full (call : ParameterCall defaultModule file machine struct value) :
    call.spec.params.zip call.full = call.before ++ (call.param, value) :: call.after := by
  have split : ∀ pairs : List (ParamSpec × Value),
      (pairs.map Prod.fst).zip (pairs.map Prod.snd) = pairs := by
    intro pairs
    simp [List.zip_map']
  rw [call.params, full, List.zip_append (by simp), List.zip_cons_cons, split, split]

theorem length_full (call : ParameterCall defaultModule file machine struct value) :
    call.full.length = call.spec.params.length := by
  simp [full, call.params]

/-- The declaration that is called was compiled from the function. -/
theorem compiledFunction (compiled : compileFile defaultModule file = .ok machine.program)
    (call : ParameterCall defaultModule file machine struct value) :
    Compile.compileFunction call.owner call.spec = .ok call.decl := by
  have related := Compile.function?_rel compiled (Lowering.worldOf defaultModule file machine) rfl rfl
    call.owner call.f.name
  rw [Compile.routine?_written compiled (Lowering.worldOf defaultModule file machine) rfl rfl
    call.written, call.found] at related
  cases related with
  | some from_ =>
      cases from_ with
      | written lowered compiledSpec =>
          rw [call.lowered] at lowered
          cases lowered
          exact compiledSpec

/-- The call is one with the full arguments. -/
theorem call_full (compiled : compileFile defaultModule file = .ok machine.program) {remaining : Nat}
    (depth : machine.maxDepth = remaining + 1)
    (call : ParameterCall defaultModule file machine struct value) :
    machine.call call.owner call.f.name call.args
      = machine.callWithin (fun _ => pure ()) (remaining + 1) call.owner call.f.name call.full := by
  rcases Compile.compileFunction_cases (call.compiledFunction compiled) with ⟨implementations, same, -⟩
  have arity : call.full.length = call.decl.arity := by
    rw [call.length_full, same]
    simp [Compile.declaration, Declaration.arity, Core.Forward.arity]
  have host : machine.firstHost call.owner call.decl
      = machine.hostOf (machine.callWithin (fun _ => pure ()) remaining) call.owner call.decl := by
    rw [firstHost, depth, Nat.add_sub_cancel]
  have completed := call.completed
  rw [host] at completed
  rw [Machine.call, depth]
  simp only [callWithin, dispatch, call.found]
  -- Full arguments are complete as they are, so from here on both calls are one.
  rw [invoke_eq, invoke_eq, completed, completeArgs_of_length_eq _ arity]
  rfl

/-- The parameter receives what the module of the struct makes of the value. -/
theorem received_of_ok (call : ParameterCall defaultModule file machine struct value)
    {checker : ValueModule} (registered : machine.registry.get? struct = some checker) {record : Value}
    (accepted : checker.validate value = .ok record) :
    received machine.registry call.owner call.param value = .ok record := by
  simp only [received, call.mode, call.asked, registered, accepted]

theorem received_of_error (call : ParameterCall defaultModule file machine struct value)
    {checker : ValueModule} (registered : machine.registry.get? struct = some checker)
    {diagnostic : String} (refused : checker.validate value = .error diagnostic) :
    received machine.registry call.owner call.param value
      = .error (.validation call.param.name value diagnostic) := by
  simp only [received, call.mode, call.asked, registered, refused]

/-- The call goes on with what the parameter receives. -/
theorem call_eq (compiled : compileFile defaultModule file = .ok machine.program)
    (positive : 0 < machine.maxDepth)
    (call : ParameterCall defaultModule file machine struct value) :
    ∃ body, call.spec.body = .single body ∧
      machine.call call.owner call.f.name call.args
        = call.goesOn body (received machine.registry call.owner call.param value) := by
  have here := call.compiledFunction compiled
  have member : call.param ∈ call.spec.params := by simp [call.params]
  rcases Compile.single_of_validate here member call.mode with ⟨body, single⟩
  refine ⟨body, single, ?_⟩
  obtain ⟨remaining, depth⟩ := Nat.exists_eq_add_one.mpr positive
  have admitted : ∀ pair ∈ call.spec.params.zip call.full, Admits call.spec.constraints pair.1 pair.2 := by
    intro pair among
    rw [call.zip_full, List.mem_append, List.mem_cons] at among
    rcases among with earlier | rfl | later
    · exact call.admitted pair (List.mem_append_left _ earlier)
    · -- The parameter asks for a validation, so it has no guard.
      intro guarded
      rw [call.mode] at guarded
      cases guarded
    · exact call.admitted pair (List.mem_append_right _ later)
  have runs := (Lowering.lowerFunction_addressed call.lowered).single_call_handOver single here
    call.found remaining call.length_full admitted
  calc machine.call call.owner call.f.name call.args
      = machine.callWithin (fun _ => pure ()) (remaining + 1) call.owner call.f.name call.full :=
        call.call_full compiled depth
    _ = (do
          let outputs ← handOver machine.registry call.owner (call.spec.params.zip call.full)
          (evalBlock (machine.firstHost call.owner call.decl) .nil body
            (boundFrame call.spec.params outputs)).map Prod.fst) := by
        rw [runs, firstHost, depth, Nat.add_sub_cancel]
    _ = call.goesOn body (received machine.registry call.owner call.param value) := by
        rw [call.zip_full, Lowering.handOver_split, goesOn]

/-- In the frame that the body starts from, the parameter holds what it has received. -/
theorem get?_received (call : ParameterCall defaultModule file machine struct value)
    {earlier : List Value} (first : handOver machine.registry call.owner call.before = .ok earlier)
    (given : Value) (later : List Value) :
    (boundFrame call.spec.params (earlier ++ given :: later)).get? call.param.slot = some given := by
  rcases (Lowering.lowerFunction_addressed call.lowered).code with ⟨_, params, -⟩
  refine params.get?_boundFrame (call.param, given) ?_
  have length : (call.before.map Prod.fst).length = earlier.length := by
    rw [List.length_map, Lowering.length_of_handOver first]
  rw [call.params, List.zip_append length, List.zip_cons_cons]
  exact List.mem_append_right _ List.mem_cons_self

end ParameterCall

/-! ## Entrances -/

/-- How the module of a struct words that a field was refused. -/
def failureDiagnostic (failure : FieldFailure) : String :=
  failure.field ++ ": " ++ failure.diagnostic ++ " (got " ++ failure.value.render ++ ")"

section Entrances

variable (defaultModule : String) (file : Surface.SourceFile) (machine : Machine) (struct : String)
  (value : Value)

/-- Every entrance to a struct lets a value in and makes the same record of it. -/
structure Accepts (record : Value) : Prop where
  new : machine.call struct "new" [value] = .ok record
  validate : machine.call struct "validate" [value] = .ok (.ok record)
  contract : ∃ checker, machine.registry.get? struct = some checker ∧
    checker.validate value = .ok record
  parameter : ∀ call : ParameterCall defaultModule file machine struct value, ∃ body,
    call.spec.body = .single body ∧
      machine.call call.owner call.f.name call.args = call.goesOn body (.ok record)
  /-- The body finds the record in the place of the value. -/
  rebound : ∀ (call : ParameterCall defaultModule file machine struct value) (earlier later : List Value),
    handOver machine.registry call.owner call.before = .ok earlier →
    (boundFrame call.spec.params (earlier ++ record :: later)).get? call.param.slot = some record

/-- Every entrance to a struct refuses a value, for the same field. -/
structure Refuses (failure : FieldFailure) : Prop where
  new : machine.call struct "new" [value]
    = .error (.validation failure.field failure.value failure.diagnostic)
  validate : machine.call struct "validate" [value]
    = .ok (.error (.tuple [.atom failure.field, failure.value, .text failure.diagnostic]))
  contract : ∃ checker, machine.registry.get? struct = some checker ∧
    checker.validate value = .error (failureDiagnostic failure)
  /-- Unless a parameter before it has an objection, the parameter ends the call with that of the
  module. -/
  parameter : ∀ call : ParameterCall defaultModule file machine struct value,
    machine.call call.owner call.f.name call.args
      = handOver machine.registry call.owner call.before >>= fun _ =>
          .error (.validation call.param.name value (failureDiagnostic failure))

end Entrances

/-- The module of a struct makes of a map what the schema constructs from it. -/
theorem validate_toModule_map (schema : RecordSchema) (entries : List (Value × Value)) :
    schema.toModule.validate (.map entries)
      = match schema.construct (.map entries) with
        | .ok record => .ok record
        | .error failure => .error (failureDiagnostic failure) := by
  simp only [RecordSchema.toModule, ValueModule.validate, ValueModule.mapping?, RecordSchema.construct]
  cases ValueModule.construct schema.fields (.map entries) with
  | ok values => rfl
  | error failure => rfl

section Calls

variable {defaultModule : String} {file : Surface.SourceFile} {program : Core.Program}
variable {registry : Registry} {limit : Nat} {machine : Machine} {definition : RecordDef}

/-- All entrances to a struct agree on every map.

Take a machine on which calls may begin, built for a compiled file, and a struct of this file.  Either the
functions `new` and `validate`, the registered module and every parameter that asks for the struct let the
map in, and all of them make the same record of it; or all of them refuse it, and report the same field
with its value and diagnostic. -/
theorem entrances_agree (compiled : compileFile defaultModule file = .ok program)
    (built : build program registry limit = .ok machine) (positive : 0 < limit)
    (member : definition ∈ program.records) (entries : List (Value × Value)) :
    (∃ record, record.isRecordOf definition.name = true ∧
      Accepts defaultModule file machine definition.name (.map entries) record) ∨
    ∃ failure, Refuses defaultModule file machine definition.name (.map entries) failure := by
  rcases exists_boundSchema (Compile.nodup_structNames compiled) built member with
    ⟨schema, found, named, registered, -⟩
  have called := fun op => call_record_eq op compiled built positive member found [.map entries]
  have new : machine.call definition.name "new" [.map entries]
      = match schema.construct (.map entries) with
        | .ok record => .ok record
        | .error failure => .error (failureFault failure) := called .new
  have validate : machine.call definition.name "validate" [.map entries]
      = .ok (outcomeValue (schema.construct (.map entries))) := called .validate
  have checked := validate_toModule_map schema entries
  rcases build_eq_ok built with ⟨rfl, rfl, -⟩
  -- Every entrance constructs the record from the same map, so one outcome decides them all.
  cases made : schema.construct (.map entries) with
  | ok record =>
      rw [made] at new validate checked
      refine .inl ⟨record, ?_, new, validate, ⟨_, registered, checked⟩, fun call => ?_,
        fun call _ later first => call.get?_received first record later⟩
      · rcases map_eq_ok.mp made with ⟨values, -, rfl⟩
        simp [Value.isRecordOf, named]
      · have outcome := call.call_eq compiled positive
        rwa [call.received_of_ok registered checked] at outcome
  | error failure =>
      rw [made] at new validate checked
      refine .inr ⟨failure, new, validate, ⟨_, registered, checked⟩, fun call => ?_⟩
      rcases call.call_eq compiled positive with ⟨body, -, outcome⟩
      rw [call.received_of_error registered checked] at outcome
      exact outcome

end Calls

/-- A map with the owner of an account, under a text as its key. -/
def ownerMap (owner : String) : List (Value × Value) := [(.text "owner", .text owner)]

theorem accountFile_enters :
    ∃ program machine, compileFile "Main" accountFile = .ok program ∧
      build program accountRegistry 4 = .ok machine ∧
      (∃ definition ∈ program.records, definition.name = "Account") ∧
      machine.call "Account" "new" [.map (ownerMap "ann")] = .ok ownedAccount ∧
      (∃ diagnostic, machine.call "Account" "new" [.map (ownerMap "")]
        = .error (.validation "owner" (.text "") diagnostic)) ∧
      ∀ owner, ∃ call : ParameterCall "Main" accountFile machine "Account" (.map (ownerMap owner)),
        call.owner = "Main" ∧ call.f.name = "check" ∧ call.args = [.map (ownerMap owner)] := by
  refine ⟨_, _, rfl, rfl, ⟨_, List.mem_cons_self, rfl⟩, by with_unfolding_all rfl,
    ⟨_, by with_unfolding_all rfl⟩, fun owner => ?_⟩
  exact ⟨{ owner := "Main"
           f := _
           spec := _
           decl := _
           args := [.map (ownerMap owner)]
           before := []
           param := _
           after := []
           written := List.mem_cons_self
           lowered := rfl
           found := rfl
           params := rfl
           mode := rfl
           asked := rfl
           completed := rfl
           admitted := List.forall_mem_nil _ }, rfl, rfl, rfl⟩

/-- An owner with a name is let in at every entrance, and one without a name is refused at every entrance;
the function `check` of the file is one of them. -/
theorem entrances_agree_account :
    ∃ program machine, compileFile "Main" accountFile = .ok program ∧
      build program accountRegistry 4 = .ok machine ∧
      Accepts "Main" accountFile machine "Account" (.map (ownerMap "ann")) ownedAccount ∧
      (∃ failure, failure.field = "owner" ∧ failure.value = .text "" ∧
        Refuses "Main" accountFile machine "Account" (.map (ownerMap "")) failure) ∧
      ∀ owner, ∃ call : ParameterCall "Main" accountFile machine "Account" (.map (ownerMap owner)),
        call.owner = "Main" ∧ call.f.name = "check" ∧ call.args = [.map (ownerMap owner)] := by
  rcases accountFile_enters with ⟨program, machine, compiled, built, ⟨definition, member, named⟩,
    accepted, ⟨diagnostic, refused⟩, calls⟩
  have agree := fun owner => entrances_agree compiled built (by decide) member (ownerMap owner)
  rw [named] at agree
  refine ⟨program, machine, compiled, built, ?_, ?_, calls⟩
  · rcases agree "ann" with ⟨record, -, accepts⟩ | ⟨failure, refuses⟩
    · have same := accepts.new
      rw [accepted] at same
      cases same
      exact accepts
    · have same := refuses.new
      rw [accepted] at same
      cases same
  · rcases agree "" with ⟨record, -, accepts⟩ | ⟨failure, refuses⟩
    · have same := accepts.new
      rw [refused] at same
      cases same
    · have same := refuses.new
      rw [refused, Except.error.injEq, Fault.validation.injEq] at same
      exact ⟨failure, same.1.symm, same.2.1.symm, refuses⟩

end Machine
end Clausal
