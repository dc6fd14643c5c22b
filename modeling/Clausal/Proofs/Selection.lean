import Clausal.Proofs.Invocation
import Clausal.Proofs.Lowering.Program
import Clausal.Proofs.Relation

/-!
# The choice of a clause

A guard without unsafe calls has the same outcome in every machine, since it reaches neither
functions nor modules (`evalExpr_eq_of_safe`), and the compiler emits no other guards
(`Emitted.guards_safe`).  So the implementation that a call runs is fixed by its declaration and its
arguments alone.  Main statement: `selection_independent`.
-/

namespace Clausal
namespace Machine

open Clausal.Core (Declaration Implementation)
open Outcome

/-! ## Safe code -/

section Safe

variable {m : Type → Type} [Monad m] [MonadExceptOf Fault m] {host host' : Host m}

variable (m) in
/-- Computations that are the same. -/
def sameEffects : EffectRelation m m where
  Rel x y := x = y
  pure _ := rfl
  throw _ := rfl
  bind first next := by
    cases first
    exact congrArg _ (funext next)

/-- Code without unsafe calls runs alike in hosts of the same variables. -/
theorem evalExpr_eq_of_safe (bindings : host.bindings = host'.bindings) {e : Core.Expr}
    (safe : e.unsafeCall? = none) : evalExpr host e = evalExpr host' e :=
  funext fun frame => evalExpr_rel (sameEffects m) bindings e (.inl safe) frame

theorem evalGuard_eq_of_safe (bindings : host.bindings = host'.bindings) {guard : Core.Expr}
    (safe : guard.unsafeCall? = none) : evalGuard host guard = evalGuard host' guard := by
  unfold evalGuard
  rw [evalExpr_eq_of_safe bindings safe]

/-- The guards of some implementations have no unsafe calls. -/
def GuardsSafe (implementations : List Implementation) : Prop :=
  ∀ i ∈ implementations, ∀ guard, i.guard = some guard → guard.unsafeCall? = none

theorem select?_eq_of_safe (bindings : host.bindings = host'.bindings)
    {implementations : List Implementation} (safe : GuardsSafe implementations) (args : List Value)
    (index : Nat) :
    select? host args index implementations = select? host' args index implementations := by
  have guards : ∀ i ∈ implementations, ∀ guard, i.guard = some guard → ∀ frame,
      evalGuard host guard frame = evalGuard host' guard frame := by
    intro i member guard given frame
    exact congrFun (evalGuard_eq_of_safe bindings (safe i member guard given)) frame
  exact select?_rel (sameEffects m) guards args index

end Safe

/-! ## Choices -/

/-- A choice is the first implementation that takes the arguments: its place, the implementation and
the frame it is entered in.  No choice is made if no implementation takes them. -/
def IsFirst (host : Host (Except Fault)) (args : List Value)
    (implementations : List Implementation) : Option (Nat × Implementation × Frame) → Prop
  | none => ∀ i ∈ implementations, admit? host i args = .ok none
  | some (index, i, frame) =>
      implementations[index]? = some i ∧ admit? host i args = .ok (some frame) ∧
        ∀ j ∈ implementations.take index, admit? host j args = .ok none

theorem isFirst_of_select? {host : Host (Except Fault)} {args : List Value}
    {implementations : List Implementation} {choice : Option (Nat × Implementation × Frame)}
    (chosen : select? host args 0 implementations = .ok choice) :
    IsFirst host args implementations choice := by
  rcases select?_spec host args 0 implementations with
    ⟨other, refused⟩ | ⟨before, i, frame, after, rfl, other, refused, entered⟩
  · rw [chosen] at other
    cases other
    exact refused
  · rw [chosen] at other
    cases other
    rw [Nat.zero_add]
    exact ⟨by simp, entered, by simpa using refused⟩

end Machine

/-! ## Guards that the compiler emits -/

namespace Compile

open Clausal.Core (Declaration Expr Implementation)
open Clausal.Machine (Frame Host GuardsSafe IsFirst evalExpr finish)
open Clausal.Lowering (sampleFile)
open Outcome

theorem conjoin_safe {before guard : Option Expr}
    (first : before.bind Expr.unsafeCall? = none) (second : guard.bind Expr.unsafeCall? = none) :
    (conjoin before guard).bind Expr.unsafeCall? = none := by
  match before, guard with
  | none, none | some _, none => exact first
  | none, some _ => exact second
  | some _, some _ => exact Option.or_eq_none_iff.mpr ⟨first, second⟩

theorem combinedGuard_safe {constraints : List TypeConstraint} {before guard : Option Expr}
    {params : List ParamSpec} (h : combinedGuard constraints before params = .ok guard)
    (first : before.bind Expr.unsafeCall? = none) : guard.bind Expr.unsafeCall? = none := by
  refine combinedGuard_induction
    (P := fun guard => guard.bind Expr.unsafeCall? = none) (fun _ _ => conjoin_safe) h first ?_
  intro param _ own asked
  -- A parameter asks for a test by a builtin, and of a variable.
  rcases paramGuard_cases asked with rfl | ⟨test, rfl⟩
  · rfl
  · rfl

/-- Synthesized or written, the guards of an emitted declaration have no unsafe calls. -/
theorem Emitted.guards_safe {owner : String} {decl : Declaration} (h : Emitted owner decl) :
    GuardsSafe decl.implementations := by
  rcases h with ⟨routine, source⟩
  rcases source.exists_spec with ⟨spec, _, compiled⟩
  rcases compileFunction_cases compiled with ⟨implementations, rfl, body⟩
  intro i member guard given
  cases body with
  | @single _ own _ written guarded checked =>
      -- The guard of a single body is put together from the tests its parameters ask for.
      cases List.mem_singleton.mp member
      have asked : own = some guard := given
      have safe := combinedGuard_safe guarded rfl
      rw [asked] at safe
      exact safe
  | clauses written all =>
      -- A clause was refused unless its guard has no unsafe calls.
      rcases exists_mem_of_forall₂ all member with ⟨clause, _, here⟩
      rcases clauseImplementation_eq_ok here with ⟨rfl, _, safe⟩
      exact safe guard given

/-- The choice of a clause is independent of the rest of the system.  Take a declaration of a
compiled file.  Its guards have no unsafe calls; code without unsafe calls has the same outcome in
any two machines for the same declaration and frame; and for full arguments there is one choice, the
first implementation that takes them, which every call on every machine makes, reports and runs. -/
theorem selection_independent {defaultModule : String} {file : Surface.SourceFile}
    {program : Core.Program} (compiled : compileFile defaultModule file = .ok program)
    {m : Core.ProgramModule} (inProgram : m ∈ program.modules) {decl : Declaration}
    (member : decl ∈ m.functions) :
    (∀ i ∈ decl.implementations, ∀ guard, i.guard = some guard → guard.unsafeCall? = none) ∧
    (∀ e : Expr, e.unsafeCall? = none →
      ∀ (other : Declaration) (machine machine' : Machine) call call' owner owner' frame,
        evalExpr (m := Except Fault) (machine.hostOf call owner other) e frame
          = evalExpr (machine'.hostOf call' owner' other) e frame) ∧
    ∀ args, args.length = decl.arity → ∃ choice, ∀ (machine : Machine) call owner,
      IsFirst (machine.hostOf call owner decl) args decl.implementations choice ∧
        ∀ notify, machine.invoke notify call owner decl args
          = finish (machine.hostOf call owner decl) notify decl args choice := by
  have safe := (emitted_of_mem compiled inProgram member).guards_safe
  refine ⟨safe, ?_, ?_⟩
  · intro e safe other machine machine' call call' owner owner' frame
    have bindings : (machine.hostOf call owner other).bindings
        = (machine'.hostOf call' owner' other).bindings := rfl
    exact congrFun (Machine.evalExpr_eq_of_safe bindings safe) frame
  · intro args full
    -- Any host will do to find the choice: all hosts of the declaration agree on it.
    let somewhere : Host (Except Fault) := ⟨"", decl.bindings, [], [], fun _ _ _ => .ok .nil⟩
    rcases Machine.exists_select? somewhere args 0 decl.implementations with ⟨choice, chosen⟩
    refine ⟨choice, ?_⟩
    intro machine call owner
    have bindings : somewhere.bindings = (machine.hostOf call owner decl).bindings := rfl
    rw [Machine.select?_eq_of_safe bindings safe] at chosen
    refine ⟨Machine.isFirst_of_select? chosen, ?_⟩
    intro notify
    rw [Machine.invoke_eq, Machine.completeArgs_of_length_eq _ full]
    simp only [ok_bind, chosen]

theorem selection_independent_sampleFile :
    ∃ program m decl, compileFile "Main" sampleFile = .ok program ∧ m ∈ program.modules ∧
      decl ∈ m.functions ∧ decl.name = "total" ∧
      ∃ choice, ∀ (machine : Machine) call owner,
        IsFirst (machine.hostOf call owner decl) [.list [.int 1], .int 2] decl.implementations
          choice := by
  have there : ∃ program m decl, compileFile "Main" sampleFile = .ok program ∧
      m ∈ program.modules ∧ decl ∈ m.functions ∧ decl.name = "total" ∧ decl.arity = 2 :=
    ⟨_, _, _, rfl, .head _, .tail _ (.head _), rfl, rfl⟩
  rcases there with ⟨program, m, decl, compiled, inProgram, member, name, arity⟩
  rcases selection_independent compiled inProgram member with ⟨_, _, choices⟩
  rcases choices [.list [.int 1], .int 2] arity.symm with ⟨choice, made⟩
  exact ⟨program, m, decl, compiled, inProgram, member, name, choice,
    fun machine call owner => (made machine call owner).1⟩

end Compile
end Clausal
