import Clausal.Proofs.Invocation

/-!
# Execution without limits of its own

The evaluator is handed the depth that is left, and ends because that number falls.  This module
says what a run is without any such help.  A call is made at a depth, which counts upwards; code runs
at a `Place`, and the rules below follow it from form to form and from call to call.  Nothing in them
falls: only the rule for a call compares the depth with the limit of the machine.

A derivation is a finite tree, so a call has an outcome under these rules only if its execution comes
to an end.  Each judgement also gives the depths of the activations that were begun, in order.

The equations in the second part say what the evaluator makes of one form when its parts have been
evaluated.  `Clausal.Proofs.Termination` compares the two.
-/

namespace Clausal
namespace Machine

open Clausal.Core (Bindings Declaration ForwardParam Implementation RecordOp Slot)
open Outcome

/-! ## Places and results -/

/-- Where code runs: how deep, in which module, and as part of which declaration. -/
structure Place where
  depth : Nat
  owner : String
  decl : Declaration

/-- Goes on from a result with a step that leaves the frame alone. -/
def thenApply {α β : Type} (result : Except Fault (α × Frame)) (step : α → Except Fault β) :
    Except Fault (β × Frame) :=
  result >>= fun (a, frame) => (step a).map fun b => (b, frame)

/-- What the struct of a name makes of a record operation. -/
def recordOutcome (machine : Machine) (op : RecordOp) (struct : String) (args : List Value) :
    Except Fault Value :=
  match machine.schemas.lookup struct with
  | some schema => applyRecordOp schema struct op args
  | none => .error (.unknownModule struct)

/-- What a value module makes of the contents of a slot. -/
def checkSlot (machine : Machine) (bindings : Bindings) (frame : Frame) (slot : Slot)
    (checker : String) : Except Fault Value :=
  match machine.registry.get? checker with
  | none => .error (.unknownModule checker)
  | some valueModule =>
      let raw := (frame.get? slot).getD .nil
      match valueModule.validate raw with
      | .ok value => .ok value
      | .error diagnostic => .error (.validation (bindings.nameOf slot) raw diagnostic)

/-! ## Rules -/

mutual

/-- An expression is evaluated at a place and in a frame; the activations it begins and its result
follow. -/
inductive EvaluatesExpr (machine : Machine) :
    Place → Core.Expr → Frame → List Nat → Except Fault (Value × Frame) → Prop where
  | literal {place value frame} :
      EvaluatesExpr machine place (.literal value) frame [] (.ok (value.toValue, frame))
  | var {place slot frame value} (held : frame.get? slot = some value) :
      EvaluatesExpr machine place (.var slot) frame [] (.ok (value, frame))
  | unset {place slot frame} (empty : frame.get? slot = none) :
      EvaluatesExpr machine place (.var slot) frame []
        (.error (unboundSlot place.decl.bindings slot))
  | unary {place op e frame t r} (operand : EvaluatesExpr machine place e frame t r) :
      EvaluatesExpr machine place (.unary op e) frame t (thenApply r (Value.applyUnary op))
  -- A fault of the left operand ends every operator; otherwise the strict ones evaluate the right.
  | leftFault {place op left right frame t fault}
      (first : EvaluatesExpr machine place left frame t (.error fault)) :
      EvaluatesExpr machine place (.binary op left right) frame t (.error fault)
  | strict {place op left right frame a frame₁ t₁ t₂ r}
      (first : EvaluatesExpr machine place left frame t₁ (.ok (a, frame₁)))
      (second : EvaluatesExpr machine place right frame₁ t₂ r) :
      EvaluatesExpr machine place (.binary (.strict op) left right) frame (t₁ ++ t₂)
        (thenApply r (Value.apply op a))
  | andWrong {place left right frame a frame₁ t fault}
      (first : EvaluatesExpr machine place left frame t (.ok (a, frame₁)))
      (wrong : truthOf .and a = .error fault) :
      EvaluatesExpr machine place (.binary .and left right) frame t (.error fault)
  | andFalse {place left right frame a frame₁ t}
      (first : EvaluatesExpr machine place left frame t (.ok (a, frame₁)))
      (decided : truthOf .and a = .ok false) :
      EvaluatesExpr machine place (.binary .and left right) frame t (.ok (.bool false, frame₁))
  | andTrue {place left right frame a frame₁ t₁ t₂ r}
      (first : EvaluatesExpr machine place left frame t₁ (.ok (a, frame₁)))
      (open_ : truthOf .and a = .ok true)
      (second : EvaluatesExpr machine place right frame₁ t₂ r) :
      EvaluatesExpr machine place (.binary .and left right) frame (t₁ ++ t₂)
        (thenApply r fun b => (truthOf .and b).map .bool)
  | orWrong {place left right frame a frame₁ t fault}
      (first : EvaluatesExpr machine place left frame t (.ok (a, frame₁)))
      (wrong : truthOf .or a = .error fault) :
      EvaluatesExpr machine place (.binary .or left right) frame t (.error fault)
  | orTrue {place left right frame a frame₁ t}
      (first : EvaluatesExpr machine place left frame t (.ok (a, frame₁)))
      (decided : truthOf .or a = .ok true) :
      EvaluatesExpr machine place (.binary .or left right) frame t (.ok (.bool true, frame₁))
  | orFalse {place left right frame a frame₁ t₁ t₂ r}
      (first : EvaluatesExpr machine place left frame t₁ (.ok (a, frame₁)))
      (open_ : truthOf .or a = .ok false)
      (second : EvaluatesExpr machine place right frame₁ t₂ r) :
      EvaluatesExpr machine place (.binary .or left right) frame (t₁ ++ t₂)
        (thenApply r fun b => (truthOf .or b).map .bool)
  | argsFault {place callee args frame t fault}
      (first : EvaluatesExprs machine place args frame t (.error fault)) :
      EvaluatesExpr machine place (.call callee args) frame t (.error fault)
  | builtin {place builtin args frame values frame₁ t}
      (first : EvaluatesExprs machine place args frame t (.ok (values, frame₁))) :
      EvaluatesExpr machine place (.call (.builtin builtin) args) frame t
        ((applyBuiltin builtin values).map fun v => (v, frame₁))
  -- The callee runs in a frame of its own, so the frame of the caller is as the arguments left it.
  | own {place name args frame values frame₁ t₁ t₂ r}
      (first : EvaluatesExprs machine place args frame t₁ (.ok (values, frame₁)))
      (second : Calls machine place.depth place.owner name values t₂ r) :
      EvaluatesExpr machine place (.call (.own name) args) frame (t₁ ++ t₂)
        (r.map fun v => (v, frame₁))
  | remote {place owner name args frame values frame₁ t₁ t₂ r}
      (first : EvaluatesExprs machine place args frame t₁ (.ok (values, frame₁)))
      (second : Calls machine place.depth owner name values t₂ r) :
      EvaluatesExpr machine place (.call (.remote owner name) args) frame (t₁ ++ t₂)
        (r.map fun v => (v, frame₁))
  | list {place items frame t r} (parts : EvaluatesExprs machine place items frame t r) :
      EvaluatesExpr machine place (.list items) frame t (thenApply r fun vs => .ok (.list vs))
  | itemsFault {place items tail frame t fault}
      (first : EvaluatesExprs machine place items frame t (.error fault)) :
      EvaluatesExpr machine place (.listTail items tail) frame t (.error fault)
  | listTail {place items tail frame values frame₁ t₁ t₂ r}
      (first : EvaluatesExprs machine place items frame t₁ (.ok (values, frame₁)))
      (second : EvaluatesExpr machine place tail frame₁ t₂ r) :
      EvaluatesExpr machine place (.listTail items tail) frame (t₁ ++ t₂)
        (thenApply r fun v => (tailItems v).map fun rest => .list (values ++ rest))
  | tuple {place items frame t r} (parts : EvaluatesExprs machine place items frame t r) :
      EvaluatesExpr machine place (.tuple items) frame t (thenApply r fun vs => .ok (.tuple vs))
  | map {place entries frame t r} (parts : EvaluatesEntries machine place entries frame t r) :
      EvaluatesExpr machine place (.map entries) frame t
        (thenApply r fun es => .ok (.ofEntries es))
  | field {place target name frame t r} (part : EvaluatesExpr machine place target frame t r) :
      EvaluatesExpr machine place (.field target name) frame t
        (thenApply r fun v => fieldOf v name)
  | conditionFault {place condition yes no frame t fault}
      (first : EvaluatesExpr machine place condition frame t (.error fault)) :
      EvaluatesExpr machine place (.cond condition yes no) frame t (.error fault)
  | conditionWrong {place condition yes no frame v frame₁ t fault}
      (first : EvaluatesExpr machine place condition frame t (.ok (v, frame₁)))
      (wrong : branchOf v = .error fault) :
      EvaluatesExpr machine place (.cond condition yes no) frame t (.error fault)
  | cond {place condition yes no frame v branch frame₁ t₁ t₂ r}
      (first : EvaluatesExpr machine place condition frame t₁ (.ok (v, frame₁)))
      (taken : branchOf v = .ok branch)
      (second : ExecutesBlock machine place .nil (if branch then yes else no) frame₁ t₂ r) :
      EvaluatesExpr machine place (.cond condition yes no) frame (t₁ ++ t₂) r
  | record {place op struct args frame t r}
      (parts : EvaluatesExprs machine place args frame t r) :
      EvaluatesExpr machine place (.record op struct args) frame t
        (thenApply r (recordOutcome machine op struct))

inductive EvaluatesExprs (machine : Machine) :
    Place → List Core.Expr → Frame → List Nat → Except Fault (List Value × Frame) → Prop where
  | nil {place frame} : EvaluatesExprs machine place [] frame [] (.ok ([], frame))
  | headFault {place e es frame t fault}
      (first : EvaluatesExpr machine place e frame t (.error fault)) :
      EvaluatesExprs machine place (e :: es) frame t (.error fault)
  | cons {place e es frame v frame₁ t₁ t₂ r}
      (first : EvaluatesExpr machine place e frame t₁ (.ok (v, frame₁)))
      (second : EvaluatesExprs machine place es frame₁ t₂ r) :
      EvaluatesExprs machine place (e :: es) frame (t₁ ++ t₂)
        (thenApply r fun vs => .ok (v :: vs))

/-- Keys and values are evaluated in the order in which they are written. -/
inductive EvaluatesEntries (machine : Machine) :
    Place → List (Core.Expr × Core.Expr) → Frame → List Nat →
      Except Fault (List (Value × Value) × Frame) → Prop where
  | nil {place frame} : EvaluatesEntries machine place [] frame [] (.ok ([], frame))
  | keyFault {place k v es frame t fault}
      (first : EvaluatesExpr machine place k frame t (.error fault)) :
      EvaluatesEntries machine place ((k, v) :: es) frame t (.error fault)
  | valueFault {place k v es frame key frame₁ t₁ t₂ fault}
      (first : EvaluatesExpr machine place k frame t₁ (.ok (key, frame₁)))
      (second : EvaluatesExpr machine place v frame₁ t₂ (.error fault)) :
      EvaluatesEntries machine place ((k, v) :: es) frame (t₁ ++ t₂) (.error fault)
  | cons {place k v es frame key frame₁ value frame₂ t₁ t₂ t₃ r}
      (first : EvaluatesExpr machine place k frame t₁ (.ok (key, frame₁)))
      (second : EvaluatesExpr machine place v frame₁ t₂ (.ok (value, frame₂)))
      (third : EvaluatesEntries machine place es frame₂ t₃ r) :
      EvaluatesEntries machine place ((k, v) :: es) frame (t₁ ++ (t₂ ++ t₃))
        (thenApply r fun rest => .ok ((key, value) :: rest))

/-- Statements run in order; the value given first is that of the statement before. -/
inductive ExecutesBlock (machine : Machine) :
    Place → Value → List Core.Stmt → Frame → List Nat → Except Fault (Value × Frame) → Prop where
  | nil {place last frame} : ExecutesBlock machine place last [] frame [] (.ok (last, frame))
  | bindFault {place last slot e rest frame t fault}
      (first : EvaluatesExpr machine place e frame t (.error fault)) :
      ExecutesBlock machine place last (.bind slot e :: rest) frame t (.error fault)
  | bind {place last slot e rest frame v frame₁ t₁ t₂ r}
      (first : EvaluatesExpr machine place e frame t₁ (.ok (v, frame₁)))
      (second : ExecutesBlock machine place v rest (frame₁.set slot v) t₂ r) :
      ExecutesBlock machine place last (.bind slot e :: rest) frame (t₁ ++ t₂) r
  | validateFault {place last slot checker rest frame fault}
      (refused : checkSlot machine place.decl.bindings frame slot checker = .error fault) :
      ExecutesBlock machine place last (.validate slot checker :: rest) frame [] (.error fault)
  | validate {place last slot checker rest frame v t r}
      (accepted : checkSlot machine place.decl.bindings frame slot checker = .ok v)
      (second : ExecutesBlock machine place v rest (frame.set slot v) t r) :
      ExecutesBlock machine place last (.validate slot checker :: rest) frame t r
  | exprFault {place last e rest frame t fault}
      (first : EvaluatesExpr machine place e frame t (.error fault)) :
      ExecutesBlock machine place last (.expr e :: rest) frame t (.error fault)
  | expr {place last e rest frame v frame₁ t₁ t₂ r}
      (first : EvaluatesExpr machine place e frame t₁ (.ok (v, frame₁)))
      (second : ExecutesBlock machine place v rest frame₁ t₂ r) :
      ExecutesBlock machine place last (.expr e :: rest) frame (t₁ ++ t₂) r

/-- Parameters get arguments or defaults; the number given first is that of the arguments which are
left for parameters with a default. -/
inductive FillsDefaults (machine : Machine) :
    Place → Nat → List ForwardParam → List Value → List Nat → Except Fault (List Value) →
      Prop where
  | nil {place spare args} : FillsDefaults machine place spare [] args [] (.ok [])
  | defaultFault {place param params args code t fault} (given : param.default = some code)
      (first : EvaluatesExpr machine place code .empty t (.error fault)) :
      FillsDefaults machine place 0 (param :: params) args t (.error fault)
  | default {place param params args code v frame t₁ t₂ r} (given : param.default = some code)
      (first : EvaluatesExpr machine place code .empty t₁ (.ok (v, frame)))
      (second : FillsDefaults machine place 0 params args t₂ r) :
      FillsDefaults machine place 0 (param :: params) args (t₁ ++ t₂) (r.map (v :: ·))
  | spare {place spare param params args code t r} (given : param.default = some code)
      (rest : FillsDefaults machine place spare params (args.drop 1) t r) :
      FillsDefaults machine place (spare + 1) (param :: params) args t
        (r.map (args.take 1 ++ ·))
  | required {place spare param params args t r} (given : param.default = none)
      (rest : FillsDefaults machine place spare params (args.drop 1) t r) :
      FillsDefaults machine place spare (param :: params) args t (r.map (args.take 1 ++ ·))

/-- The arguments of a call are completed. -/
inductive CompletesArgs (machine : Machine) :
    Place → List Value → List Nat → Except Fault (List Value) → Prop where
  | refused {place args} (count : place.decl.forward.accepts args.length = false) :
      CompletesArgs machine place args [] (.error (.arity (place.owner ++ "." ++ place.decl.name)
        (expectedArity place.decl) args.length))
  | full {place args} (count : args.length = place.decl.forward.arity)
      (accepted : place.decl.forward.accepts args.length = true) :
      CompletesArgs machine place args [] (.ok args)
  | filled {place args t r} (count : args.length ≠ place.decl.forward.arity)
      (accepted : place.decl.forward.accepts args.length = true)
      (rest : FillsDefaults machine place (args.length - place.decl.forward.required)
        place.decl.forward.params args t r) :
      CompletesArgs machine place args t r

/-- Implementations are tried in order; a guard that ends with a fault does not hold. -/
inductive Chooses (machine : Machine) :
    Place → List Value → List Implementation → List Nat → Option (Implementation × Frame) →
      Prop where
  | none {place args} : Chooses machine place args [] [] none
  | mismatch {place args i rest t choice} (matched : matchAll? i.patterns args .empty = none)
      (second : Chooses machine place args rest t choice) :
      Chooses machine place args (i :: rest) t choice
  | plain {place args i rest frame} (matched : matchAll? i.patterns args .empty = some frame)
      (unguarded : i.guard = .none) :
      Chooses machine place args (i :: rest) [] (some (i, frame))
  | holds {place args i rest frame guard v frame₁ t}
      (matched : matchAll? i.patterns args .empty = some frame) (guarded : i.guard = some guard)
      (first : EvaluatesExpr machine place guard frame t (.ok (v, frame₁)))
      (true_ : isTrue v = true) :
      Chooses machine place args (i :: rest) t (some (i, frame₁))
  | fails {place args i rest frame guard v frame₁ t₁ t₂ choice}
      (matched : matchAll? i.patterns args .empty = some frame) (guarded : i.guard = some guard)
      (first : EvaluatesExpr machine place guard frame t₁ (.ok (v, frame₁)))
      (false_ : isTrue v = false) (second : Chooses machine place args rest t₂ choice) :
      Chooses machine place args (i :: rest) (t₁ ++ t₂) choice
  | guardFault {place args i rest frame guard fault t₁ t₂ choice}
      (matched : matchAll? i.patterns args .empty = some frame) (guarded : i.guard = some guard)
      (first : EvaluatesExpr machine place guard frame t₁ (.error fault))
      (second : Chooses machine place args rest t₂ choice) :
      Chooses machine place args (i :: rest) (t₁ ++ t₂) choice

/-- One activation: arguments, choice and body. -/
inductive Invokes (machine : Machine) :
    Place → List Value → List Nat → Except Fault Value → Prop where
  | argsFault {place args t fault}
      (first : CompletesArgs machine place args t (.error fault)) :
      Invokes machine place args t (.error fault)
  | noClause {place args full t₁ t₂} (first : CompletesArgs machine place args t₁ (.ok full))
      (second : Chooses machine place full place.decl.implementations t₂ none) :
      Invokes machine place args (t₁ ++ t₂)
        (.error (.noClause
          (place.owner ++ "." ++ place.decl.name ++ "/" ++ toString place.decl.arity) full))
  | body {place args full i frame t₁ t₂ t₃ r}
      (first : CompletesArgs machine place args t₁ (.ok full))
      (second : Chooses machine place full place.decl.implementations t₂ (some (i, frame)))
      (third : ExecutesBlock machine place .nil i.body frame t₃ r) :
      Invokes machine place args (t₁ ++ (t₂ ++ t₃)) (r.map Prod.fst)

/-- A call that is made at a depth.  A function runs one level deeper, and not at all if the depth
has reached the limit. -/
inductive Calls (machine : Machine) :
    Nat → String → String → List Value → List Nat → Except Fault Value → Prop where
  | overflow {depth owner name args decl}
      (found : machine.program.function? owner name = some decl)
      (reached : machine.maxDepth ≤ depth) :
      Calls machine depth owner name args [] (.error (.stackOverflow machine.maxDepth))
  | invoke {depth owner name args decl t r}
      (found : machine.program.function? owner name = some decl) (below : depth < machine.maxDepth)
      (run : Invokes machine ⟨depth + 1, owner, decl⟩ args t r) :
      Calls machine depth owner name args ((depth + 1) :: t) r
  | contract {depth owner name args checker}
      (missing : machine.program.function? owner name = none)
      (registered : machine.registry.get? owner = some checker) :
      Calls machine depth owner name args [] (callContract checker owner name args)
  | undefined {depth owner name args} (missing : machine.program.function? owner name = none)
      (unregistered : machine.registry.get? owner = none)
      (known : (machine.program.module? owner).isSome = true) :
      Calls machine depth owner name args []
        (.error (.undefinedFunction (functionLabel owner name args)))
  | unknown {depth owner name args} (missing : machine.program.function? owner name = none)
      (unregistered : machine.registry.get? owner = none)
      (unknown : (machine.program.module? owner).isSome = false) :
      Calls machine depth owner name args [] (.error (.unknownModule owner))

end

/-! ## The evaluator on one form -/

section Steps

variable {α β : Type}

/-- A sequence of steps on a frame, with what the second step makes of each result of the first. -/
theorem bind_run_eq {x : StateT Frame (Except Fault) α} {f : α → StateT Frame (Except Fault) β}
    {next : α × Frame → Except Fault (β × Frame)} {frame : Frame}
    (step : ∀ a frame₁, f a frame₁ = next (a, frame₁)) : (x >>= f) frame = x frame >>= next := by
  cases run : x frame with
  | error fault => exact run_bind_of_error run
  | ok result => exact (run_bind_of_ok run).trans (step result.1 result.2)

theorem settle_run (result : Except Fault α) (frame : Frame) :
    (settle result : StateT Frame (Except Fault) α) frame = result.map fun a => (a, frame) := by
  cases result <;> rfl

theorem lift_run (result : Except Fault α) (frame : Frame) :
    (StateT.lift result : StateT Frame (Except Fault) α) frame
      = result.map fun a => (a, frame) := by
  cases result <;> rfl

theorem bind_settle_run (x : StateT Frame (Except Fault) α) (step : α → Except Fault β)
    (frame : Frame) : (x >>= fun a => settle (step a)) frame = thenApply (x frame) step := by
  refine bind_run_eq ?_
  intro a frame₁
  exact settle_run (step a) frame₁

theorem bind_pure_run (x : StateT Frame (Except Fault) α) (f : α → β) (frame : Frame) :
    (x >>= fun a => pure (f a)) frame = thenApply (x frame) fun a => .ok (f a) := by
  refine bind_run_eq ?_
  intro a frame₁
  rfl

/-- A step that settles and is followed by one that gives a value. -/
theorem settle_pure_run (result : Except Fault α) (f : α → β) (frame : Frame) :
    (settle result >>= fun a => pure (f a) : StateT Frame (Except Fault) β) frame
      = (result.map f).map fun b => (b, frame) := by
  cases result <;> rfl

theorem settle_bind_run (result : Except Fault α) (next : α → StateT Frame (Except Fault) β)
    (frame : Frame) : (settle result >>= next) frame = result >>= fun a => next a frame := by
  cases result <;> rfl

end Steps

section Equations

-- The evaluator reduces on a form, so each proof starts from the sequence of its steps.
variable (host : Host (Except Fault)) (frame : Frame)

theorem evalExpr_unary (op : UnaryOp) (e : Core.Expr) :
    evalExpr host (.unary op e) frame = thenApply (evalExpr host e frame) (Value.applyUnary op) := by
  exact bind_settle_run _ _ frame

theorem evalExpr_strict (op : StrictOp) (left right : Core.Expr) :
    evalExpr host (.binary (.strict op) left right) frame
      = evalExpr host left frame >>= fun (a, frame₁) =>
          thenApply (evalExpr host right frame₁) (Value.apply op a) := by
  refine bind_run_eq ?_
  intro a frame₁
  exact bind_settle_run _ _ frame₁

theorem evalExpr_and (left right : Core.Expr) :
    evalExpr host (.binary .and left right) frame
      = evalExpr host left frame >>= fun (a, frame₁) =>
          truthOf .and a >>= fun truth =>
            if truth then
              thenApply (evalExpr host right frame₁) fun b => (truthOf .and b).map .bool
            else .ok (.bool false, frame₁) := by
  refine bind_run_eq ?_
  intro a frame₁
  rw [settle_bind_run]
  refine bind_congr ?_
  intro truth
  cases truth with
  | false => rfl
  | true =>
      refine bind_run_eq ?_
      intro b frame₂
      exact settle_pure_run _ _ frame₂

theorem evalExpr_or (left right : Core.Expr) :
    evalExpr host (.binary .or left right) frame
      = evalExpr host left frame >>= fun (a, frame₁) =>
          truthOf .or a >>= fun truth =>
            if truth then .ok (.bool true, frame₁)
            else thenApply (evalExpr host right frame₁) fun b => (truthOf .or b).map .bool := by
  refine bind_run_eq ?_
  intro a frame₁
  rw [settle_bind_run]
  refine bind_congr ?_
  intro truth
  cases truth with
  | true => rfl
  | false =>
      refine bind_run_eq ?_
      intro b frame₂
      exact settle_pure_run _ _ frame₂

theorem evalExpr_call (callee : Core.Callee) (args : List Core.Expr) :
    evalExpr host (.call callee args) frame
      = evalExprs host args frame >>= fun (values, frame₁) => runCall host callee values frame₁ := by
  rfl

theorem evalExpr_list (items : List Core.Expr) :
    evalExpr host (.list items) frame
      = thenApply (evalExprs host items frame) fun vs => .ok (.list vs) := by
  exact bind_pure_run _ _ frame

theorem evalExpr_listTail (items : List Core.Expr) (tail : Core.Expr) :
    evalExpr host (.listTail items tail) frame
      = evalExprs host items frame >>= fun (values, frame₁) =>
          thenApply (evalExpr host tail frame₁) fun v =>
            (tailItems v).map fun rest => .list (values ++ rest) := by
  refine bind_run_eq ?_
  intro values frame₁
  refine bind_run_eq ?_
  intro v frame₂
  exact settle_pure_run _ _ frame₂

theorem evalExpr_tuple (items : List Core.Expr) :
    evalExpr host (.tuple items) frame
      = thenApply (evalExprs host items frame) fun vs => .ok (.tuple vs) := by
  exact bind_pure_run _ _ frame

theorem evalExpr_map (entries : List (Core.Expr × Core.Expr)) :
    evalExpr host (.map entries) frame
      = thenApply (evalEntries host entries frame) fun es => .ok (.ofEntries es) := by
  exact bind_pure_run _ _ frame

theorem evalExpr_field (target : Core.Expr) (name : String) :
    evalExpr host (.field target name) frame
      = thenApply (evalExpr host target frame) fun v => fieldOf v name := by
  exact bind_settle_run _ _ frame

theorem evalExpr_cond (condition : Core.Expr) (yes no : List Core.Stmt) :
    evalExpr host (.cond condition yes no) frame
      = evalExpr host condition frame >>= fun (v, frame₁) =>
          branchOf v >>= fun branch =>
            evalBlock host .nil (if branch then yes else no) frame₁ := by
  refine bind_run_eq ?_
  intro v frame₁
  rw [settle_bind_run]
  refine bind_congr ?_
  intro branch
  cases branch <;> rfl

theorem evalExprs_cons (e : Core.Expr) (es : List Core.Expr) :
    evalExprs host (e :: es) frame
      = evalExpr host e frame >>= fun (v, frame₁) =>
          thenApply (evalExprs host es frame₁) fun vs => .ok (v :: vs) := by
  refine bind_run_eq ?_
  intro v frame₁
  exact bind_pure_run _ _ frame₁

theorem evalEntries_cons (k v : Core.Expr) (es : List (Core.Expr × Core.Expr)) :
    evalEntries host ((k, v) :: es) frame
      = evalExpr host k frame >>= fun (key, frame₁) =>
          evalExpr host v frame₁ >>= fun (value, frame₂) =>
            thenApply (evalEntries host es frame₂) fun rest => .ok ((key, value) :: rest) := by
  refine bind_run_eq ?_
  intro key frame₁
  refine bind_run_eq ?_
  intro value frame₂
  exact bind_pure_run _ _ frame₂

theorem evalBlock_bind (last : Value) (slot : Slot) (e : Core.Expr) (rest : List Core.Stmt) :
    evalBlock host last (.bind slot e :: rest) frame
      = evalExpr host e frame >>= fun (v, frame₁) =>
          evalBlock host v rest (frame₁.set slot v) := by
  rfl

theorem evalBlock_expr (last : Value) (e : Core.Expr) (rest : List Core.Stmt) :
    evalBlock host last (.expr e :: rest) frame
      = evalExpr host e frame >>= fun (v, frame₁) => evalBlock host v rest frame₁ := by
  rfl

end Equations

section HostedEquations

variable (machine : Machine) (call : (owner name : String) → List Value → Except Fault Value)
  (owner : String) (decl : Declaration) (frame : Frame)

theorem evalExpr_record (op : RecordOp) (struct : String) (args : List Core.Expr) :
    evalExpr (machine.hostOf call owner decl) (.record op struct args) frame
      = thenApply (evalExprs (machine.hostOf call owner decl) args frame)
          (recordOutcome machine op struct) := by
  refine bind_run_eq ?_
  intro values frame₁
  simp only [runRecordOp, recordOutcome, hostOf]
  cases machine.schemas.lookup struct with
  | none => rfl
  | some schema => exact settle_run _ frame₁

theorem validateSlot_run (slot : Slot) (checker : String) :
    validateSlot (machine.hostOf call owner decl) slot checker frame
      = (checkSlot machine decl.bindings frame slot checker).map fun v =>
          (v, frame.set slot v) := by
  simp only [validateSlot, checkSlot, hostOf]
  cases machine.registry.get? checker with
  | none => rfl
  | some valueModule =>
      have got : (get : StateT Frame (Except Fault) Frame) frame = .ok (frame, frame) := rfl
      simp only [run_bind_of_ok got]
      cases valueModule.validate ((frame.get? slot).getD .nil) with
      | ok value => rfl
      | error diagnostic => rfl

theorem evalBlock_validate (last : Value) (slot : Slot) (checker : String)
    (rest : List Core.Stmt) :
    evalBlock (machine.hostOf call owner decl) last (.validate slot checker :: rest) frame
      = checkSlot machine decl.bindings frame slot checker >>= fun v =>
          evalBlock (machine.hostOf call owner decl) v rest (frame.set slot v) := by
  have run := validateSlot_run machine call owner decl frame slot checker
  cases checked : checkSlot machine decl.bindings frame slot checker with
  | error fault =>
      rw [checked] at run
      exact run_bind_of_error run
  | ok value =>
      rw [checked] at run
      exact run_bind_of_ok run

end HostedEquations

end Machine
end Clausal
