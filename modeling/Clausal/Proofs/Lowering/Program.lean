import Clausal.Proofs.Emitted
import Clausal.Proofs.Invocation
import Clausal.Proofs.Lowering.Activation

/-!
# Whole programs

A machine for a compiled file and the reference interpreter on the file itself answer every call
alike.  One activation is compared first, on the assumption that the calls made on the way are the
same (`invoke_eq_run`); the depth that is left then carries the induction over nested calls
(`callWithin_eq`).  Main statement: `call_eq_meaning`.
-/

namespace Clausal
namespace Lowering

open Clausal.Core (Bindings Declaration Implementation RecordOp)
open Clausal.Machine (Frame Host)
open Clausal.Meaning (World Routine)
open Clausal.Compile (clauseImplementation compileFunction CompiledFrom opDecl)
open Outcome

/-! ## Choosing a clause -/

/-- The same clause is chosen before and after lowering, and then runs alike. -/
theorem AddressedClauses.select_agrees {t t' : Bindings} {entries : List Surface.Stmt}
    {shapes : List ClauseShape} {clauses : List ClauseSpec}
    (h : AddressedClauses t shapes clauses t')
    (shaped : List.Forall₂ (fun entry shape => clauseShape? entry = some shape) entries shapes)
    (host : Host (Except Fault)) (args : List Value) {spec : FunctionSpec}
    {implementations : List Implementation}
    (compiled : List.Forall₂ (fun clause implementation =>
      clauseImplementation spec clause = .ok implementation) clauses implementations)
    (index : Nat) :
    ∃ found, Machine.select? host args index implementations = .ok found ∧
      Option.Rel (fun choice entry => RunsAs host choice.2.1.body choice.2.2 entry.1 entry.2) found
        (Meaning.chooseClause? (siteOf host) args entries) := by
  induction h generalizing entries implementations index with
  | nil =>
      cases shaped
      cases compiled
      exact ⟨none, rfl, .none⟩
  | @cons _ shape shapes clause clauses _ _ head _ ih =>
      cases shaped with
      | @cons entry _ entries _ is others =>
          cases compiled with
          | @cons _ implementation _ rest here there =>
              rcases Compile.clauseImplementation_eq_ok here with ⟨rfl, _⟩
              -- The first clause is entered on both sides or on neither, which leaves the rest.
              rcases head.admit_agrees is host args with ⟨admitted, run, agree⟩
              simp only [Machine.select?, Meaning.chooseClause?]
              rw [run, ok_bind]
              revert agree
              generalize Meaning.enter? (siteOf host) args entry = entered
              rintro (agree | _)
              · exact ⟨_, rfl, .some agree⟩
              · exact ih others there (index + 1)

/-! ## One activation -/

variable {machine : Machine} {world : World} {owner : String} {f : Surface.FunctionDef}
variable {spec : FunctionSpec} {decl : Declaration}

/-- Arguments are completed alike before and after lowering. -/
theorem AddressedFunction.completeArgs_eq (h : AddressedFunction f spec)
    (host : Host (Except Fault)) (implementations : List Implementation) (args : List Value) :
    Machine.completeArgs host (Compile.declaration spec implementations) args
      = Meaning.completeArgs (siteOf host) f args := by
  rcases h.code with ⟨t, params, _⟩
  have required : (Compile.declaration spec implementations).forward.required
      = Meaning.required f := params.required_eq
  have arity : (Compile.declaration spec implementations).forward.arity = Meaning.arity f := by
    simpa [Compile.declaration, Core.Forward.arity, Meaning.arity] using params.length_eq
  have name : (Compile.declaration spec implementations).name = f.name := h.name
  have fill : ∀ spare, Machine.fillDefaults host spare
      (Compile.declaration spec implementations).forward.params args
        = Meaning.fillDefaults (siteOf host) spare f.params args :=
    fun spare => params.fillDefaults_eq host spare args
  unfold Machine.completeArgs Meaning.completeArgs Machine.expectedArity Meaning.expectedArity
    Core.Forward.accepts
  rw [required, arity, name, fill]
  -- One side asks whether the number is in range, the other whether it is out of range.
  have refused : (!(decide (Meaning.required f ≤ args.length)
      && decide (args.length ≤ Meaning.arity f))) = true ↔
        args.length < Meaning.required f ∨ Meaning.arity f < args.length := by
    rw [Bool.not_eq_true', Bool.and_eq_false_iff, decide_eq_false_iff_not, decide_eq_false_iff_not,
      Nat.not_le, Nat.not_le]
  simp only [refused]
  rfl

/-- A single body is entered by the arguments that pass, and then runs alike. -/
theorem AddressedParams.single_agrees {t t' : Bindings}
    (params : AddressedParams f 0 (paramBindings 0 spec.params) f.params spec.params t)
    (bounds : LoweredConstraints f.constraints spec.constraints)
    {host : Host (Except Fault)} {block checks : Core.Block} {guard : Option Core.Expr}
    (code : AddressedStmts (paramNames spec.params) t f.body block t')
    (labels : ∀ param ∈ spec.params, host.bindings.nameOf param.slot = param.name)
    (guarded : Compile.combinedGuard spec.constraints none spec.params = .ok guard)
    (checked : Compile.validations host.owner spec.params = .ok checks)
    {args : List Value} (count : args.length = f.params.length) :
    let implementation : Implementation :=
      ⟨spec.params.map fun p => .bind p.slot, guard, checks ++ orNil block⟩
    ∃ frame, Machine.admit? host implementation args
        = .ok (if Meaning.passesAll f f.params args then some frame else none) ∧
      (Machine.evalBlock host .nil implementation.body frame).map Prod.fst
        = (do
            let env ← Meaning.bindParams (siteOf host) f f.params args
            Meaning.evalStmts (siteOf host) env .nil f.body) := by
  rcases params.matchAll_bind count Frame.empty with ⟨frame, matched, holds, _⟩
  have answers : GuardAnswers host frame guard (Meaning.passesAll f f.params args) := by
    have none_asked : GuardAnswers host frame none true := rfl
    simpa using params.combinedGuard_answers bounds guarded count holds none_asked
  refine ⟨frame, admit?_of_answers matched answers, ?_⟩
  -- Validations come before the body and may stop the call on their own.
  rcases params.validations_agree checked labels count holds .nil (orNil block) with
    ⟨fault, refused, stopped⟩ | ⟨env, last, frame', bound, went, inFrame, _⟩
  · rw [refused, stopped]
    rfl
  · have below : Below (paramNames spec.params) t.length :=
      params.namesBelow.mono params.length_le
    rw [bound, went, evalBlock_orNil]
    exact (code.agrees host .nil below inFrame).outcome_eq

/-- Arguments that no implementation takes are refused alike. -/
theorem AddressedFunction.finish_none_eq (h : AddressedFunction f spec)
    (host : Host (Except Fault)) (implementations : List Implementation) (args : List Value) :
    Machine.finish host (fun _ => pure ()) (Compile.declaration spec implementations) args none
      = Meaning.noClause (siteOf host) f args := by
  rcases h.code with ⟨t, params, _⟩
  have arity : (Compile.declaration spec implementations).arity = Meaning.arity f := by
    simpa [Compile.declaration, Declaration.arity, Core.Forward.arity, Meaning.arity]
      using params.length_eq
  simp only [Machine.finish, Meaning.noClause, arity]
  rw [← h.name]
  rfl

/-- Choosing an implementation for full arguments and running it is running the tree. -/
theorem AddressedFunction.select_finish_eq (h : AddressedFunction f spec)
    {host : Host (Except Fault)} {implementations : List Implementation}
    (body : Compile.CompiledBody host.owner spec implementations)
    (labels : ∀ param ∈ spec.params, host.bindings.nameOf param.slot = param.name)
    {args : List Value} (count : args.length = f.params.length) :
    (do
        let found ← Machine.select? host args 0 implementations
        let decl := Compile.declaration spec implementations
        Machine.finish host (fun _ => pure ()) decl args found)
      = Meaning.runBody (siteOf host) f args := by
  rcases h.code with ⟨t, params, code⟩
  cases body with
  | @single _ guard checks written guarded checked =>
      rw [written] at code
      cases code with
      | @single block _ shape stmts =>
          -- The arguments are bound first, and the guard then asks whether all of them pass.
          rcases params.single_agrees h.constraints stmts labels guarded checked count with
            ⟨frame, admitted, runs⟩
          rw [Machine.select?_single admitted 0, ok_bind]
          simp only [Meaning.runBody, isClauseList_eq, shape, Option.isSome_none,
            Bool.false_eq_true, if_false]
          cases Meaning.passesAll f f.params args with
          | true => exact runs
          | false => exact h.finish_none_eq host _ args
  | clauses written all =>
      rw [written] at code
      cases code with
      | clauses shape clauses =>
          have shaped := (clauseShapes?_eq_some shape).2
          rcases clauses.select_agrees shaped host args all 0 with ⟨found, chosen, agree⟩
          rw [chosen, ok_bind]
          simp only [Meaning.runBody, isClauseList_eq, shape, Option.isSome_some, if_true]
          revert agree
          generalize Meaning.chooseClause? (siteOf host) args _ = choice
          rintro (agree | _)
          · exact agree
          · exact h.finish_none_eq host implementations args

/-- Running a written function is running its tree, if the calls on the way are the same. -/
theorem AddressedFunction.invoke_eq (h : AddressedFunction f spec)
    (compiled : compileFunction owner spec = .ok decl)
    (call : (owner name : String) → List Value → Except Fault Value) (args : List Value)
    (sameRegistry : world.registry = machine.registry) :
    machine.invoke (fun _ => pure ()) call owner decl args
      = Meaning.run world call owner (.written f) args := by
  rcases Compile.compileFunction_cases compiled with ⟨implementations, rfl, body⟩
  let host := machine.hostOf call owner (Compile.declaration spec implementations)
  have site : (⟨owner, world.registry, call⟩ : Meaning.Site) = siteOf host := by
    rw [sameRegistry]
    rfl
  have completion : Machine.completeArgs host (Compile.declaration spec implementations) args
      = Meaning.completeArgs (siteOf host) f args := h.completeArgs_eq host implementations args
  simp only [Meaning.run, site]
  rw [Machine.invoke_eq, completion]
  cases completed : Meaning.completeArgs (siteOf host) f args with
  | error fault => rfl
  | ok full =>
      have labels : ∀ param ∈ spec.params, host.bindings.nameOf param.slot = param.name :=
        fun param member => h.nameOf member
      exact h.select_finish_eq body labels (length_completeArgs completed)

/-! ## Functions of a struct -/

theorem expectedArity_opDecl (owner : String) (op : RecordOp) :
    Machine.expectedArity (opDecl owner op) = Meaning.opArity op := by
  cases op with
  | new =>
      change toString 0 ++ ".." ++ toString 1 = "0..1"
      decide
  | validate =>
      change toString 1 = "1"
      decide
  | update =>
      change toString 2 = "2"
      decide

theorem completeArgs_opDecl (host : Host (Except Fault)) (op : RecordOp) (args : List Value) :
    Machine.completeArgs host (opDecl host.owner op) args
      = match Meaning.opArgs? op args with
        | none => .error
            (.arity (host.owner ++ "." ++ Meaning.opName op) (Meaning.opArity op) args.length)
        | some full => .ok full := by
  rw [← expectedArity_opDecl host.owner op]
  match op, args with
  | .new, [] | .new, [_] | .new, _ :: _ :: _ => rfl
  | .validate, [] | .validate, [_] | .validate, _ :: _ :: _ => rfl
  | .update, [] | .update, [_] | .update, [_, _] | .update, _ :: _ :: _ :: _ => rfl

theorem runRecordOp_outcome (host : Host (Except Fault)) (op : RecordOp) (struct : String)
    (args : List Value) (frame : Frame) :
    (Machine.runRecordOp host op struct args frame).map Prod.fst
      = match host.schemas.lookup struct with
        | some schema => Machine.applyRecordOp schema struct op args
        | none => .error (.unknownModule struct) := by
  unfold Machine.runRecordOp
  cases host.schemas.lookup struct with
  | none => rfl
  | some schema => exact (Agrees.settle 0 frame _).outcome_eq

/-- The body of a function of a struct is the record operation on its arguments. -/
theorem finish_opDecl (host : Host (Except Fault)) {op : RecordOp} {args full : List Value}
    (complete : Meaning.opArgs? op args = some full) :
    (do
        let found ← Machine.select? host full 0 (opDecl host.owner op).implementations
        Machine.finish host (fun _ => pure ()) (opDecl host.owner op) full found)
      = match host.schemas.lookup host.owner with
        | some schema => Machine.applyRecordOp schema host.owner op full
        | none => .error (.unknownModule host.owner) := by
  -- Binding the arguments leads to a frame in which the variables of the body are read back.
  have runs : ∃ frame, (do
      let found ← Machine.select? host full 0 (opDecl host.owner op).implementations
      Machine.finish host (fun _ => pure ()) (opDecl host.owner op) full found)
        = ((Machine.runRecordOp host op host.owner full >>= pure) frame).map Prod.fst := by
    match op, args with
    | .new, [] =>
        cases complete
        exact ⟨[(0, .map [])], rfl⟩
    | .new, [mapping] | .validate, [mapping] =>
        cases complete
        exact ⟨[(0, mapping)], rfl⟩
    | .update, [record, mapping] =>
        cases complete
        exact ⟨[(1, mapping), (0, record)], rfl⟩
  rcases runs with ⟨frame, run⟩
  rw [run, bind_pure]
  exact runRecordOp_outcome host op host.owner full frame

/-- Running a function of a struct is running the record operation. -/
theorem invoke_record_eq {op : RecordOp}
    (compiled : compileFunction owner (Compile.opSpec owner op) = .ok decl)
    (call : (owner name : String) → List Value → Except Fault Value) (args : List Value)
    (sameSchemas : world.schemas = machine.schemas) :
    machine.invoke (fun _ => pure ()) call owner decl args
      = Meaning.run world call owner (.record op) args := by
  cases Compile.compileFunction_opSpec compiled
  let host := machine.hostOf call owner (opDecl owner op)
  have completion : Machine.completeArgs host (opDecl owner op) args = _ :=
    completeArgs_opDecl host op args
  rw [Machine.invoke_eq, completion]
  simp only [Meaning.run, Meaning.runRecord, sameSchemas]
  cases complete : Meaning.opArgs? op args with
  | none => rfl
  | some full => exact finish_opDecl host complete

/-! ## Nested calls -/

/-- A file with the modules and the depth limit of a machine. -/
def worldOf (defaultModule : String) (file : Surface.SourceFile) (machine : Machine) : World :=
  { file, defaultModule, registry := machine.registry, schemas := machine.schemas
    maxDepth := machine.maxDepth }

theorem invoke_eq_run {defaultModule : String} {file : Surface.SourceFile} {routine : Routine}
    (h : CompiledFrom owner routine decl)
    (call : (owner name : String) → List Value → Except Fault Value) (args : List Value) :
    machine.invoke (fun _ => pure ()) call owner decl args
      = Meaning.run (worldOf defaultModule file machine) call owner routine args := by
  cases h with
  | written lowered compiled =>
      exact (lowerFunction_addressed lowered).invoke_eq compiled call args rfl
  | record compiled => exact invoke_record_eq compiled call args rfl

section Programs

variable {defaultModule : String} {file : Surface.SourceFile} {program : Core.Program}

/-- A call goes to the same place before and after lowering. -/
theorem dispatch_eq (compiled : Compile.compileFile defaultModule file = .ok machine.program)
    {run : (owner : String) → Declaration → List Value → Except Fault Value}
    {run' : (owner : String) → Routine → List Value → Except Fault Value}
    (same : ∀ owner routine decl args, CompiledFrom owner routine decl →
      run owner decl args = run' owner routine args)
    (owner name : String) (args : List Value) :
    machine.dispatch run owner name args
      = Meaning.dispatch (worldOf defaultModule file machine) run' owner name args := by
  have found := Compile.function?_rel compiled (worldOf defaultModule file machine) rfl rfl
    owner name
  unfold Machine.dispatch Meaning.dispatch
  rw [Compile.isSome_module? compiled]
  -- Either both sides find a function to run, or both go on to the value modules.
  revert found
  generalize Meaning.routine? (worldOf defaultModule file machine) owner name = routine
  generalize machine.program.function? owner name = decl
  rintro (here | _)
  · exact same _ _ _ args here
  · have shared : (worldOf defaultModule file machine).registry = machine.registry := rfl
    rw [shared]
    cases machine.registry.get? owner with
    | some checker => exact Machine.settle_eq _
    | none => rfl

/-- Calls that may nest equally deep have the same outcome. -/
theorem callWithin_eq (compiled : Compile.compileFile defaultModule file = .ok machine.program)
    (remaining : Nat) (owner name : String) (args : List Value) :
    machine.callWithin (fun _ => pure ()) remaining owner name args
      = Meaning.callWithin (worldOf defaultModule file machine) remaining owner name args := by
  induction remaining generalizing owner name args with
  | zero =>
      -- Nothing is left: whatever function is found, both sides refuse to run it.
      exact dispatch_eq compiled (fun _ _ _ _ _ => rfl) owner name args
  | succ remaining ih =>
      have calls : machine.callWithin (fun _ => pure ()) remaining
          = Meaning.callWithin (worldOf defaultModule file machine) remaining := by
        funext owner name args
        exact ih owner name args
      refine dispatch_eq compiled ?_ owner name args
      intro owner routine decl args here
      rw [calls]
      exact invoke_eq_run here _ args

/-- Lowering preserves meaning.  On a machine built on a compiled file, every call has the outcome
that the reference interpreter gives it on the file itself, and every function of the file is the
one that a call of its name runs. -/
theorem call_eq_meaning {registry : Registry} {limit : Nat}
    (compiled : Compile.compileFile defaultModule file = .ok program)
    (built : Machine.build program registry limit = .ok machine) :
    let world : World :=
      { file, defaultModule, registry := machine.registry, schemas := machine.schemas
        maxDepth := limit }
    (∀ owner name args, machine.call owner name args = Meaning.call world owner name args) ∧
      ∀ owner f, f ∈ Meaning.functionsAmong (world.members owner) →
        Meaning.routine? world owner f.name = some (.written f) := by
  rcases Machine.build_eq_ok built with ⟨rfl, rfl, _⟩
  refine ⟨?_, ?_⟩
  · intro owner name args
    exact callWithin_eq compiled machine.maxDepth owner name args
  · intro owner f member
    exact Compile.routine?_written compiled _ rfl rfl member

/-- Three functions with most of what names can do: `shadow` hides its parameter twice, once inside a
branch; `total` adds up a list by clauses that bind the same names to different slots; and `sign`
has guards that do not hold for every argument, and that end with a fault for some. -/
def sampleFile : Surface.SourceFile :=
  let s := Span.synthetic
  let name := Surface.Expr.ident s
  let int := Surface.Expr.integer s
  let add := Surface.Expr.binary s (.strict .add)
  let less := Surface.Expr.binary s (.strict .less)
  let shadow : Surface.FunctionDef :=
    { name := "shadow", returnType := none, constraints := [], span := s
      params := [⟨"n", .index s (name "guard") [name "integer"], s⟩]
      body :=
        [.bind s "n" (add (name "n") (int 1)),
         .bind s "m" (.cond s (less (name "n") (int 5))
           [.bind s "n" (add (name "n") (int 10)), .expr (name "n")] [.expr (name "n")]),
         .expr (add (name "n") (name "m"))] }
  let total : Surface.FunctionDef :=
    { name := "total", returnType := none, constraints := [], span := s
      params := [⟨"items", name "any", s⟩, ⟨"start", .defaulted s (name "any") (int 0), s⟩]
      body :=
        [.expr (.clause s (.paren s [.list s [], name "start"]) (name "start")),
         .expr (.clause s
           (.guarded s (.paren s [.listTail s [name "x"] (name "rest"), name "start"])
             (.call s (name "is_integer") [name "x"]))
           (.call s (name "total") [name "rest", add (name "start") (name "x")]))] }
  let sign : Surface.FunctionDef :=
    { name := "sign", returnType := none, constraints := [], span := s
      params := [⟨"n", name "any", s⟩]
      body :=
        [.expr (.clause s (.guarded s (.paren s [name "n"]) (less (name "n") (int 0)))
           (.atom s "negative")),
         .expr (.clause s (.guarded s (.paren s [name "n"]) (less (int 0) (name "n")))
           (.atom s "positive")),
         .expr (.clause s (.paren s [name "_"]) (.atom s "neither"))] }
  { items := [.member (.function shadow), .member (.function total), .member (.function sign)]
    span := s }

theorem sampleFile_builds (limit : Nat) :
    ∃ program machine, Compile.compileFile "Main" sampleFile = .ok program ∧
      Machine.build program [] limit = .ok machine :=
  ⟨_, _, rfl, rfl⟩

theorem call_eq_meaning_sampleFile :
    ∃ program machine, Compile.compileFile "Main" sampleFile = .ok program ∧
      Machine.build program [] 16 = .ok machine ∧
      (let world : World := ⟨sampleFile, "Main", machine.registry, machine.schemas, 16⟩
       (∀ name args, machine.call "Main" name args = Meaning.call world "Main" name args) ∧
         Meaning.call world "Main" "shadow" [.int 2] = .ok (.int 16) ∧
         Meaning.call world "Main" "total" [.list [.int 2, .int 3]] = .ok (.int 5) ∧
         -- The guard of the first clause does not hold.
         Meaning.call world "Main" "sign" [.int 3] = .ok (.atom "positive") ∧
         -- The guards of the first two clauses end with a fault.
         Meaning.call world "Main" "sign" [.text "three"] = .ok (.atom "neither")) :=
  ⟨_, _, rfl, rfl, (call_eq_meaning rfl rfl).1 _, rfl, rfl, rfl, rfl⟩

end Programs

end Lowering
end Clausal
