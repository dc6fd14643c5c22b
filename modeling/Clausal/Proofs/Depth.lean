import Clausal.Proofs.Selection

/-!
# The depth limit

A machine passes the depth that is left from call to call.  Two things follow from that.

* The limit only cuts runs off: a call that does not end in a stack overflow ends the same way under
  every higher limit (`callWithin_cut`).  A guard could hide an overflow, but the guards that the
  compiler emits make no calls.
* A machine may as well count: one that keeps the depth in a counter, which a call raises by one and
  takes back by one however it ends, has the same outcomes, and finds the counter after each call
  where it was before (`countedCall_run`).

Main statement: `depth_limit_only_cuts`.
-/

namespace Clausal
namespace Machine

open Clausal.Core (Declaration Implementation)
open Outcome

/-! ## Higher limits -/

/-- A run that overflows the stack, or that ends as the other does. -/
def CutOff {α : Type} (run run' : Except Fault α) : Prop :=
  (∃ limit, run = .error (.stackOverflow limit)) ∨ run = run'

/-- Being cut off is respected by everything that does not catch faults. -/
def cutOff : EffectRelation (Except Fault) (Except Fault) where
  Rel := CutOff
  pure _ := .inr rfl
  throw _ := .inr rfl
  bind := by
    intro α β x y f g first next
    rcases first with ⟨limit, rfl⟩ | rfl
    · exact .inl ⟨limit, rfl⟩
    · cases x with
      | error fault => exact .inr rfl
      | ok a => exact next a

variable {machine machine' : Machine}

/-- A call that may nest deeper ends as it did, unless it was cut off. -/
theorem callWithin_cut (program : machine.program = machine'.program)
    (registry : machine.registry = machine'.registry) (schemas : machine.schemas = machine'.schemas)
    (safe : ∀ owner name decl, machine.program.function? owner name = some decl →
      GuardsSafe decl.implementations)
    {remaining remaining' : Nat} (le : remaining ≤ remaining') (owner name : String)
    (args : List Value) :
    CutOff (machine.callWithin (fun _ => pure ()) remaining owner name args)
      (machine'.callWithin (fun _ => pure ()) remaining' owner name args) := by
  -- The induction is on the lower of the two depths: a run that uses it up was cut off.
  induction remaining generalizing remaining' owner name args with
  | zero =>
      cases remaining' with
      | zero => exact dispatch_rel cutOff program registry fun _ _ => .inl ⟨_, rfl⟩
      | succ => exact dispatch_rel cutOff program registry fun _ _ => .inl ⟨_, rfl⟩
  | succ remaining ih =>
      cases remaining' with
      | zero => exact absurd le (Nat.not_succ_le_zero remaining)
      | succ remaining' =>
          refine dispatch_rel cutOff program registry ?_
          intro decl found
          let host : Host (Except Fault) :=
            machine.hostOf (machine.callWithin (fun _ => pure ()) remaining) owner decl
          let host' : Host (Except Fault) :=
            machine'.hostOf (machine'.callWithin (fun _ => pure ()) remaining') owner decl
          have reach : cutOff.SameReach host host' :=
            ⟨rfl, registry, schemas, fun owner name args =>
              ih (Nat.le_of_succ_le_succ le) owner name args⟩
          refine invoke_rel cutOff (fun _ => .inr rfl) reach ?_ args
          -- A guard makes no calls, so it cannot have been cut off.
          intro i member guard given frame
          have bindings : host.bindings = host'.bindings := rfl
          have guardSafe := safe owner name decl found i member guard given
          exact .inr (congrFun (evalGuard_eq_of_safe bindings guardSafe) frame)

/-! ## Counting -/

/-- Runs with a counter, which faults leave as it is. -/
abbrev Counted := ExceptT Fault (StateM Nat)

/-- Runs one level deeper.  However the run ends, the counter is taken back by one. -/
def deeper {α : Type} (x : Counted α) : Counted α :=
  ExceptT.mk do
    let depth ← get
    set (depth + 1)
    let outcome ← x.run
    modify (· - 1)
    return outcome

/-- Runs a function one level deeper, if the counter is below the limit. -/
def invokeCounted (machine : Machine)
    (call : (owner name : String) → List Value → Counted Value) (owner : String)
    (decl : Declaration) (args : List Value) : Counted Value := do
  let depth ← get
  if machine.maxDepth ≤ depth then
    throw (Fault.stackOverflow machine.maxDepth)
  else
    deeper (machine.invoke (fun _ => pure ()) call owner decl args)

/-- A call on a machine that counts.  The counter stops calls at the limit, so `fuel` is not used up
if it exceeds the depth that is left. -/
def callCounted (machine : Machine) :
    (fuel : Nat) → (owner name : String) → List Value → Counted Value
  | 0 => machine.dispatch fun _ _ _ => throw (Fault.stackOverflow machine.maxDepth)
  | fuel + 1 => machine.dispatch (machine.invokeCounted (machine.callCounted fuel))

/-- Calls a function of a module on a machine that counts. -/
def countedCall (machine : Machine) : (owner name : String) → List Value → Counted Value :=
  machine.callCounted (machine.maxDepth + 1)

/-- Makes calls one after the other on one machine that counts. -/
def runCalls (machine : Machine) :
    List (String × String × List Value) → StateM Nat (List (Except Fault Value))
  | [] => return []
  | (owner, name, args) :: rest => do
      let outcome ← (machine.countedCall owner name args).run
      let outcomes ← runCalls machine rest
      return outcome :: outcomes

/-- A counted run that starts at a depth ends as the other run does, at the same depth. -/
def KeepsDepth {α : Type} (depth : Nat) (x : Counted α) (y : Except Fault α) : Prop :=
  x.run.run depth = (y, depth)

theorem KeepsDepth.bind {α β : Type} {depth : Nat} {x : Counted α} {y : Except Fault α}
    {f : α → Counted β} {g : α → Except Fault β} (first : KeepsDepth depth x y)
    (next : ∀ a, KeepsDepth depth (f a) (g a)) : KeepsDepth depth (x >>= f) (y >>= g) := by
  have run : x.run.run depth = (y, depth) := first
  unfold KeepsDepth
  rw [ExceptT.run_bind, StateT.run_bind, run]
  cases y with
  | ok a => exact next a
  | error fault => rfl

theorem KeepsDepth.tryCatch {α : Type} {depth : Nat} {x : Counted α} {y : Except Fault α}
    {handle : Fault → Counted α} {handle' : Fault → Except Fault α}
    (first : KeepsDepth depth x y)
    (next : ∀ fault, KeepsDepth depth (handle fault) (handle' fault)) :
    KeepsDepth depth (tryCatch x handle) (tryCatch y handle') := by
  have run : x.run.run depth = (y, depth) := first
  unfold KeepsDepth
  rw [ExceptT.run_tryCatch, StateT.run_bind, run]
  cases y with
  | ok a => rfl
  | error fault => exact next fault

theorem KeepsDepth.deeper {α : Type} {depth : Nat} {x : Counted α} {y : Except Fault α}
    (inside : KeepsDepth (depth + 1) x y) : KeepsDepth depth (deeper x) y := by
  have run : x.run.run (depth + 1) = (y, depth + 1) := inside
  -- The counter is taken back on both ways out, since a fault is part of the outcome here.
  have taken : (Machine.deeper x).run.run depth
      = ((x.run.run (depth + 1)).1, (x.run.run (depth + 1)).2 - 1) := rfl
  unfold KeepsDepth
  rw [taken, run]
  rfl

/-- Keeping the depth is respected by the evaluator. -/
def keepsDepth (depth : Nat) : EffectRelation Counted (Except Fault) where
  Rel := KeepsDepth depth
  pure _ := rfl
  throw _ := rfl
  bind := KeepsDepth.bind

theorem evalGuard_keepsDepth {depth : Nat} {host : Host Counted} {host' : Host (Except Fault)}
    (bindings : host.bindings = host'.bindings) (reach : (keepsDepth depth).SameReach host host')
    (guard : Core.Expr) (frame : Frame) :
    KeepsDepth depth (evalGuard host guard frame) (evalGuard host' guard frame) := by
  have run := evalExpr_rel (keepsDepth depth) bindings guard (.inr reach) frame
  refine KeepsDepth.tryCatch ?_ fun _ => rfl
  refine (keepsDepth depth).bindRun run ?_
  intro value frame'
  split
  · exact (keepsDepth depth).pureRun true frame'
  · exact (keepsDepth depth).pureRun false frame'

theorem invokeCounted_run (machine : Machine)
    (call : (owner name : String) → List Value → Counted Value) (owner : String)
    (decl : Declaration) (args : List Value) (depth : Nat) :
    (machine.invokeCounted call owner decl args).run.run depth
      = if machine.maxDepth ≤ depth then (.error (.stackOverflow machine.maxDepth), depth)
        else (deeper (machine.invoke (fun _ => pure ()) call owner decl args)).run.run depth := by
  change (if machine.maxDepth ≤ depth then throw (Fault.stackOverflow machine.maxDepth)
    else deeper (machine.invoke (fun _ => pure ()) call owner decl args) : Counted Value).run.run
      depth = _
  split
  · rfl
  · rfl

/-- A machine that counts answers a call as one that passes on the depth that is left, and its
counter is afterwards what it was before. -/
theorem callCounted_keepsDepth (machine : Machine) {fuel depth : Nat}
    (enough : machine.maxDepth < depth + fuel) (owner name : String) (args : List Value) :
    KeepsDepth depth (machine.callCounted fuel owner name args)
      (machine.callWithin (fun _ => pure ()) (machine.maxDepth - depth) owner name args) := by
  -- The counter and what is left add up to the limit, so the counter rises as what is left falls.
  induction fuel generalizing depth owner name args with
  | zero =>
      have reached : machine.maxDepth ≤ depth := Nat.le_of_lt enough
      rw [Nat.sub_eq_zero_of_le reached]
      exact dispatch_rel (keepsDepth depth) rfl rfl fun _ _ => rfl
  | succ fuel ih =>
      -- Below the limit a function runs one level deeper, with one step less of what is left.
      by_cases reached : machine.maxDepth ≤ depth
      · rw [Nat.sub_eq_zero_of_le reached]
        refine dispatch_rel (keepsDepth depth) rfl rfl ?_
        intro decl _
        change (machine.invokeCounted _ owner decl args).run.run depth = _
        rw [invokeCounted_run, if_pos reached]
        rfl
      · have left : machine.maxDepth - depth = (machine.maxDepth - (depth + 1)) + 1 := by omega
        rw [left]
        refine dispatch_rel (keepsDepth depth) rfl rfl ?_
        intro decl _
        change (machine.invokeCounted _ owner decl args).run.run depth = _
        rw [invokeCounted_run, if_neg reached]
        refine KeepsDepth.deeper ?_
        let host : Host Counted := machine.hostOf (machine.callCounted fuel) owner decl
        let host' : Host (Except Fault) := machine.hostOf
          (machine.callWithin (fun _ => pure ()) (machine.maxDepth - (depth + 1))) owner decl
        have enough' : machine.maxDepth < depth + 1 + fuel := by omega
        have reach : (keepsDepth (depth + 1)).SameReach host host' :=
          ⟨rfl, rfl, rfl, fun owner name args => ih enough' owner name args⟩
        refine invoke_rel (keepsDepth (depth + 1)) (fun _ => rfl) reach ?_ args
        intro _ _ guard _ frame
        exact evalGuard_keepsDepth rfl reach guard frame

theorem countedCall_run (machine : Machine) (depth : Nat) (owner name : String)
    (args : List Value) :
    (machine.countedCall owner name args).run.run depth
      = (machine.callWithin (fun _ => pure ()) (machine.maxDepth - depth) owner name args, depth) :=
  callCounted_keepsDepth machine (by omega) owner name args

theorem runCalls_run (machine : Machine) (calls : List (String × String × List Value)) :
    (machine.runCalls calls).run 0
      = (calls.map fun (owner, name, args) => machine.call owner name args, 0) := by
  induction calls with
  | nil => rfl
  | cons next rest ih =>
      rcases next with ⟨owner, name, args⟩
      simp only [runCalls]
      rw [StateT.run_bind, countedCall_run]
      change (do
        let outcomes ← machine.runCalls rest
        return _ :: outcomes : StateM Nat _).run 0 = _
      rw [StateT.run_bind, ih]
      rfl

end Machine

namespace Compile

open Clausal.Lowering (sampleFile)

/-- The depth limit only ever cuts a run off.  Take a machine for a compiled file.  A call on it
that does not end in a stack overflow ends the same way on the machine with a higher limit.  On a
machine that counts its depth, the counter is after every call what it was before, whatever the
outcome, and calls made one after the other have the outcomes of calls on a fresh machine. -/
theorem depth_limit_only_cuts {defaultModule : String} {file : Surface.SourceFile}
    {program : Core.Program} {registry : Registry} {limit limit' : Nat} {machine : Machine}
    (compiled : compileFile defaultModule file = .ok program)
    (built : Machine.build program registry limit = .ok machine) (le : limit ≤ limit') :
    (∃ machine', Machine.build program registry limit' = .ok machine' ∧
      ∀ owner name args, (∀ n, machine.call owner name args ≠ .error (.stackOverflow n)) →
        machine'.call owner name args = machine.call owner name args) ∧
    (∀ owner name args depth, (machine.countedCall owner name args).run.run depth
      = (machine.callWithin (fun _ => pure ()) (limit - depth) owner name args, depth)) ∧
    ∀ calls, (machine.runCalls calls).run 0
      = (calls.map fun (owner, name, args) => machine.call owner name args, 0) := by
  have higher := Machine.build_of_limit built limit'
  rcases Machine.build_eq_ok built with ⟨rfl, rfl, _⟩
  refine ⟨⟨_, higher, ?_⟩, ?_, machine.runCalls_run⟩
  · intro owner name args finished
    have safe : ∀ owner name decl, machine.program.function? owner name = some decl →
        Machine.GuardsSafe decl.implementations :=
      fun _ _ _ found => (emitted_of_function? compiled found).guards_safe
    let other : Machine := { machine with maxDepth := limit' }
    have program : machine.program = other.program := rfl
    have outcome : Machine.CutOff (machine.call owner name args) (other.call owner name args) :=
      Machine.callWithin_cut program rfl rfl safe le owner name args
    rcases outcome with ⟨n, cut⟩ | same
    · exact absurd cut (finished n)
    · exact same.symm
  · intro owner name args depth
    exact machine.countedCall_run depth owner name args

theorem depth_limit_only_cuts_sampleFile :
    ∃ program machine machine', compileFile "Main" sampleFile = .ok program ∧
      Machine.build program [] 4 = .ok machine ∧ Machine.build program [] 9 = .ok machine' ∧
      machine.call "Main" "total" [.list [.int 2, .int 3]] = .ok (.int 5) ∧
      machine'.call "Main" "total" [.list [.int 2, .int 3]] = .ok (.int 5) := by
  have there : ∃ program machine, compileFile "Main" sampleFile = .ok program ∧
      Machine.build program [] 4 = .ok machine ∧
      machine.call "Main" "total" [.list [.int 2, .int 3]] = .ok (.int 5) :=
    ⟨_, _, rfl, rfl, rfl⟩
  rcases there with ⟨program, machine, compiled, built, value⟩
  have four_le : 4 ≤ 9 := by decide
  rcases depth_limit_only_cuts compiled built four_le with ⟨⟨machine', built', same⟩, _⟩
  refine ⟨program, machine, machine', compiled, built, built', value, ?_⟩
  have finished : ∀ n, machine.call "Main" "total" [.list [.int 2, .int 3]]
      ≠ .error (.stackOverflow n) := by
    intro n
    rw [value]
    nofun
  calc machine'.call "Main" "total" [.list [.int 2, .int 3]]
      = machine.call "Main" "total" [.list [.int 2, .int 3]] := same "Main" "total" _ finished
    _ = .ok (.int 5) := value

end Compile
end Clausal
