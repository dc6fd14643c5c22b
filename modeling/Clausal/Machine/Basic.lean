import Clausal.Machine.Eval

/-!
# The machine

A machine runs the functions of a program.  Building one turns every struct of the program into a
value module, each after those its fields need.  A call finds the first implementation whose
patterns match and whose guard holds; calls nest at most `maxDepth` deep, and a machine has no
state that a call could change.
-/

namespace Clausal

open Clausal.Core (Program RecordDef Declaration Implementation ForwardParam)

structure Machine where
  program : Program
  registry : Registry
  schemas : List (String × Machine.RecordSchema)
  maxDepth : Nat

namespace Machine

/-! ## Building -/

/-- Whether all modules a struct needs are registered. -/
def isReady (registry : Registry) (definition : RecordDef) : Bool :=
  definition.fields.all fun field => registry.contains field.checker

/-- The first struct that is ready, and the others. -/
def takeReady? (registry : Registry) : List RecordDef → Option (RecordDef × List RecordDef)
  | [] => none
  | definition :: rest =>
      if isReady registry definition then some (definition, rest)
      else (takeReady? registry rest).map fun (found, others) => (found, definition :: others)

/-- Taking a definition out loses none of the others. -/
theorem perm_of_takeReady? {registry : Registry} {pending rest : List RecordDef}
    {ready : RecordDef} (h : takeReady? registry pending = some (ready, rest)) :
    (ready :: rest).Perm pending := by
  induction pending generalizing ready rest with
  | nil => simp [takeReady?] at h
  | cons first others ih =>
      simp only [takeReady?] at h
      split at h
      · cases h
        exact .refl _
      · obtain ⟨⟨found, left⟩, hf, he⟩ := Option.map_eq_some_iff.mp h
        cases he
        exact (List.Perm.swap first _ _).trans ((ih hf).cons first)

/-- The first field of some structs whose module is missing, with the name of its struct. -/
def firstMissing? (registry : Registry) (pending : List RecordDef) : Option (String × String) :=
  pending.findSome? fun definition =>
    (definition.fields.find? fun field => !registry.contains field.checker).map fun field =>
      (definition.name, field.checker)

/-- Why none of some structs is ready. -/
def blockedFault (registry : Registry) (pending : List RecordDef) : Fault :=
  let (owner, missing) := (firstMissing? registry pending).getD ("", "")
  if pending.any fun definition => definition.name == missing then
    .typeError ("struct " ++ owner ++ " cannot be built: its fields lead back to " ++ missing)
  else
    .unknownModule missing

/-- Builds structs as they become ready, at most `limit` of them. -/
def buildSchemas : (limit : Nat) → List RecordDef → Registry → List (String × RecordSchema) →
    Except Fault (Registry × List (String × RecordSchema))
  | _, [], registry, schemas => .ok (registry, schemas)
  | 0, pending, registry, _ => .error (blockedFault registry pending)
  | limit + 1, pending, registry, schemas =>
      match takeReady? registry pending with
      | none => .error (blockedFault registry pending)
      | some (definition, others) =>
          match RecordSchema.ofDef registry definition with
          | .error fault => .error fault
          | .ok schema =>
              buildSchemas limit others (registry.insert definition.name schema.toModule)
                ((definition.name, schema) :: schemas)

/-- The machine of a program over a registry of value modules. -/
def build (program : Program) (registry : Registry) (maxDepth : Nat) : Except Fault Machine :=
  let pending := program.records
  (buildSchemas pending.length pending registry []).map fun (registry, schemas) =>
    { program, registry, schemas, maxDepth }

/-! ## Calling -/

/-- The choice of an implementation for a call. -/
structure Dispatch where
  owner : String
  function : String
  arity : Nat
  /-- The place of the implementation among those of its function. -/
  index : Nat
  deriving DecidableEq, Repr, Inhabited

section Calls

variable {m : Type → Type} [Monad m] [MonadExceptOf Fault m]

/-- The code of a function runs in its module and calls other functions by `call`. -/
def hostOf (machine : Machine) (call : (owner name : String) → List Value → m Value)
    (owner : String) (decl : Declaration) : Host m :=
  { owner, bindings := decl.bindings, registry := machine.registry, schemas := machine.schemas
    call }

/-- How many arguments a function takes. -/
def expectedArity (decl : Declaration) : String :=
  let required := decl.forward.required
  let arity := decl.forward.arity
  if required = arity then toString arity else toString required ++ ".." ++ toString arity

/-- Gives each parameter an argument or its default.  `spare` arguments are left for parameters
with a default, which the first such parameters get. -/
def fillDefaults (host : Host m) : (spare : Nat) → List ForwardParam → List Value → m (List Value)
  | _, [], _ => pure []
  | spare, param :: params, args =>
      match param.default, spare with
      | some default, 0 => do
          let (value, _) ← (evalExpr host default).run .empty
          return value :: (← fillDefaults host 0 params args)
      | some _, spare + 1 => return args.take 1 ++ (← fillDefaults host spare params (args.drop 1))
      | none, spare => return args.take 1 ++ (← fillDefaults host spare params (args.drop 1))

/-- The full arguments of a call. -/
def completeArgs (host : Host m) (decl : Declaration) (args : List Value) : m (List Value) :=
  if !decl.forward.accepts args.length then
    throw (Fault.arity (host.owner ++ "." ++ decl.name) (expectedArity decl) args.length)
  else if args.length = decl.forward.arity then
    pure args
  else
    fillDefaults host (args.length - decl.forward.required) decl.forward.params args

/-- The frame in which an implementation would run, if its patterns match and its guard holds. -/
def admit? (host : Host m) (implementation : Implementation) (args : List Value) :
    m (Option Frame) :=
  match matchAll? implementation.patterns args .empty with
  | none => pure none
  | some frame =>
      match implementation.guard with
      | none => pure (some frame)
      | some guard => do
          let (holds, frame) ← (evalGuard host guard).run frame
          return if holds then some frame else none

/-- The first implementation that admits the arguments, its place and its frame. -/
def select? (host : Host m) (args : List Value) :
    (index : Nat) → List Implementation → m (Option (Nat × Implementation × Frame))
  | _, [] => pure none
  | index, implementation :: rest => do
      match ← admit? host implementation args with
      | some frame => return some (index, implementation, frame)
      | none => select? host args (index + 1) rest

/-- Runs a function below the depth limit; `notify` is told which implementation is chosen. -/
def invoke (machine : Machine) (notify : Dispatch → m Unit)
    (call : (owner name : String) → List Value → m Value)
    (owner : String) (decl : Declaration) (args : List Value) : m Value := do
  let host := machine.hostOf call owner decl
  let args ← completeArgs host decl args
  match ← select? host args 0 decl.implementations with
  | some (index, implementation, frame) =>
      notify { owner, function := decl.name, arity := decl.arity, index }
      let (value, _) ← (evalBlock host .nil implementation.body).run frame
      return value
  | none =>
      throw (Fault.noClause (owner ++ "." ++ decl.name ++ "/" ++ toString decl.arity) args)

/-- The name of a function with its number of arguments. -/
def functionLabel (owner name : String) (args : List Value) : String :=
  owner ++ "." ++ name ++ "/" ++ toString args.length

/-- The operations every value module has. -/
def callContract (checker : ValueModule) (owner name : String) (args : List Value) :
    Except Fault Value :=
  match name, args with
  | "validate", [value] =>
      match checker.validate value with
      | .ok accepted => .ok (.ok accepted)
      | .error diagnostic => .ok (.error (.text diagnostic))
  | "default", [] =>
      match checker.default with
      | .ok value => .ok value
      | .error diagnostic => .ok (.error (.text diagnostic))
  | name, args => .error (.undefinedFunction (functionLabel owner name args))

/-- Calls a function of the program by `run`, or else an operation of a value module. -/
def dispatch (machine : Machine) (run : (owner : String) → Declaration → List Value → m Value)
    (owner name : String) (args : List Value) : m Value :=
  match machine.program.function? owner name with
  | some decl => run owner decl args
  | none =>
      match machine.registry.get? owner with
      | some checker => settle (callContract checker owner name args)
      | none =>
          if (machine.program.module? owner).isSome then
            throw (Fault.undefinedFunction (functionLabel owner name args))
          else
            throw (Fault.unknownModule owner)

/-- A call that may nest `remaining` deep. -/
def callWithin (machine : Machine) (notify : Dispatch → m Unit) :
    (remaining : Nat) → (owner name : String) → List Value → m Value
  | 0 => machine.dispatch fun _ _ _ => throw (Fault.stackOverflow machine.maxDepth)
  | remaining + 1 => machine.dispatch (machine.invoke notify (machine.callWithin notify remaining))

end Calls

/-- Calls a function of a module. -/
def call (machine : Machine) (owner name : String) (args : List Value) : Except Fault Value :=
  machine.callWithin (fun _ => pure ()) machine.maxDepth owner name args

/-- Splits a text at its last point. -/
def splitQualified? (qualified : String) : Option (String × String) :=
  let reversed := qualified.toList.reverse
  match reversed.dropWhile (· != '.') with
  | [] => none
  | _ :: owner =>
      some (String.ofList owner.reverse,
        String.ofList (reversed.takeWhile (· != '.')).reverse)

/-- Calls a function named as `Module.function`. -/
def callQualified (machine : Machine) (qualified : String) (args : List Value) :
    Except Fault Value :=
  match splitQualified? qualified with
  | some (owner, name) => machine.call owner name args
  | none => .error (.undefinedFunction qualified)

/-- Runs with a record of the implementations that were chosen. -/
abbrev Traced := ExceptT Fault (StateM (List Dispatch))

/-- Calls a function and gives the choices made on the way, in order. -/
def traceQualified (machine : Machine) (qualified : String) (args : List Value) :
    Except Fault Value × List Dispatch :=
  match splitQualified? qualified with
  | some (owner, name) =>
      let notify : Dispatch → Traced Unit := fun d => modify (· ++ [d])
      (machine.callWithin notify machine.maxDepth owner name args).run.run []
  | none => (.error (.undefinedFunction qualified), [])

end Machine
end Clausal
