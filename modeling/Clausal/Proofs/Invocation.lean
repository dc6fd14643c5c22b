import Clausal.Machine.Basic
import Clausal.Proofs.Outcome

/-!
# The stages of a call

`Machine.invoke` completes the arguments, chooses an implementation and runs its body.
`invoke_eq` says so in one equation, with the last stage under a name of its own, so that proofs
about calls need not open `invoke`.
-/

namespace Clausal
namespace Machine

open Clausal.Core (Declaration Implementation Program)
open Outcome

/-- A machine keeps its program and its limit; its modules come from the structs and the registry
alone. -/
theorem build_eq_ok {program : Program} {registry : Registry} {limit : Nat} {machine : Machine}
    (h : build program registry limit = .ok machine) :
    machine.program = program ∧ machine.maxDepth = limit ∧
      buildSchemas program.records.length program.records registry []
        = .ok (machine.registry, machine.schemas) := by
  rcases map_eq_ok.mp h with ⟨⟨modules, schemas⟩, built, rfl⟩
  exact ⟨rfl, rfl, built⟩

/-- The limit plays no part in building a machine. -/
theorem build_of_limit {program : Program} {registry : Registry} {limit : Nat} {machine : Machine}
    (h : build program registry limit = .ok machine) (limit' : Nat) :
    build program registry limit' = .ok { machine with maxDepth := limit' } := by
  rcases build_eq_ok h with ⟨rfl, _, built⟩
  exact map_eq_ok.mpr ⟨_, built, rfl⟩

theorem settle_eq {α : Type} (result : Except Fault α) :
    (settle result : Except Fault α) = result := by
  cases result <;> rfl

/-! ## Guards -/

/-- Whether a value is the truth value `true`, the only one that lets a call in. -/
def isTrue : Value → Bool
  | .bool b => b
  | _ => false

section Guards

variable {host : Host (Except Fault)} {frame : Frame} {guard : Core.Expr}

/-- A guard that ends with a fault does not hold. -/
theorem evalGuard_of_error {fault : Fault} (run : evalExpr host guard frame = .error fault) :
    evalGuard host guard frame = .ok (false, frame) := by
  unfold evalGuard
  rw [run_tryCatch, run_bind_of_error run]
  rfl

theorem evalGuard_of_ok {value : Value} {frame' : Frame}
    (run : evalExpr host guard frame = .ok (value, frame')) :
    evalGuard host guard frame = .ok (isTrue value, frame') := by
  unfold evalGuard
  rw [run_tryCatch, run_bind_of_ok run]
  cases value with
  | bool b => cases b <;> rfl
  | _ => rfl

end Guards

/-! ## Choosing an implementation -/

section Admission

variable {host : Host (Except Fault)} {i : Implementation} {args : List Value} {frame : Frame}
  {guard : Core.Expr}

theorem admit?_of_mismatch (matched : matchAll? i.patterns args .empty = none) :
    admit? host i args = .ok none := by
  simp only [admit?, matched]
  rfl

theorem admit?_of_unguarded (matched : matchAll? i.patterns args .empty = some frame)
    (unguarded : i.guard = none) : admit? host i args = .ok (some frame) := by
  simp only [admit?, matched, unguarded]
  rfl

theorem admit?_of_guard_ok {value : Value} {frame' : Frame}
    (matched : matchAll? i.patterns args .empty = some frame) (guarded : i.guard = some guard)
    (run : evalExpr host guard frame = .ok (value, frame')) :
    admit? host i args = .ok (if isTrue value then some frame' else none) := by
  simp only [admit?, matched, guarded, StateT.run]
  rw [evalGuard_of_ok run]
  rfl

theorem admit?_of_guard_error {fault : Fault}
    (matched : matchAll? i.patterns args .empty = some frame) (guarded : i.guard = some guard)
    (run : evalExpr host guard frame = .error fault) : admit? host i args = .ok none := by
  simp only [admit?, matched, guarded, StateT.run]
  rw [evalGuard_of_error run]
  rfl

/-- An implementation that refuses the arguments leaves the choice to the others. -/
theorem select?_of_refused (refused : admit? host i args = .ok none)
    (rest : List Implementation) (index : Nat) :
    select? host args index (i :: rest) = select? host args (index + 1) rest := by
  simp only [select?]
  rw [refused, ok_bind]

theorem select?_of_admitted (admitted : admit? host i args = .ok (some frame))
    (rest : List Implementation) (index : Nat) :
    select? host args index (i :: rest) = .ok (some (index, i, frame)) := by
  simp only [select?]
  rw [admitted, ok_bind]
  rfl

end Admission

section Choice

variable (host : Host (Except Fault)) (args : List Value)

/-- Whether an implementation is entered is always decided. -/
theorem exists_admit? (implementation : Implementation) :
    ∃ admitted, admit? host implementation args = .ok admitted := by
  cases matched : matchAll? implementation.patterns args .empty with
  | none => exact ⟨none, admit?_of_mismatch matched⟩
  | some frame =>
      cases guarded : implementation.guard with
      | none => exact ⟨some frame, admit?_of_unguarded matched guarded⟩
      | some guard =>
          -- A guard has an answer however it ends, since a fault in it is caught.
          cases run : evalExpr host guard frame with
          | error fault => exact ⟨none, admit?_of_guard_error matched guarded run⟩
          | ok result => exact ⟨_, admit?_of_guard_ok matched guarded run⟩

/-- A choice is always made, and it is the first implementation that admits the arguments. -/
theorem select?_spec (index : Nat) (implementations : List Implementation) :
    (select? host args index implementations = .ok none ∧
      ∀ i ∈ implementations, admit? host i args = .ok none) ∨
    ∃ before i frame after, implementations = before ++ i :: after ∧
      select? host args index implementations = .ok (some (index + before.length, i, frame)) ∧
      (∀ j ∈ before, admit? host j args = .ok none) ∧ admit? host i args = .ok (some frame) := by
  induction implementations generalizing index with
  | nil => exact .inl ⟨rfl, fun _ member => nomatch member⟩
  | cons first rest ih =>
      simp only [select?]
      -- The first implementation decides, unless it refuses the arguments.
      rcases exists_admit? host args first with ⟨admitted, here⟩
      rw [here, ok_bind]
      cases admitted with
      | some frame =>
          refine .inr ⟨[], first, frame, rest, rfl, rfl, ?_, here⟩
          exact fun _ member => nomatch member
      | none =>
          rcases ih (index + 1) with
            ⟨chosen, refused⟩ | ⟨before, i, frame, after, rfl, chosen, refused, entered⟩
          · refine .inl ⟨chosen, ?_⟩
            intro i member
            rcases List.mem_cons.mp member with rfl | member
            · exact here
            · exact refused i member
          · refine .inr ⟨first :: before, i, frame, after, rfl, ?_, ?_, entered⟩
            · rw [List.length_cons, Nat.add_comm before.length 1, ← Nat.add_assoc]
              exact chosen
            · intro j member
              rcases List.mem_cons.mp member with rfl | member
              · exact here
              · exact refused j member

theorem exists_select? (index : Nat) (implementations : List Implementation) :
    ∃ choice, select? host args index implementations = .ok choice := by
  rcases select?_spec host args index implementations with
    ⟨chosen, _⟩ | ⟨_, _, _, _, _, chosen, _⟩
  · exact ⟨none, chosen⟩
  · exact ⟨_, chosen⟩

end Choice

/-! ## The stages -/

/-- Reports and runs the implementation that was chosen for some full arguments. -/
def finish (host : Host (Except Fault)) (notify : Dispatch → Except Fault Unit)
    (decl : Declaration) (args : List Value) :
    Option (Nat × Implementation × Frame) → Except Fault Value
  | some (index, implementation, frame) => do
      notify { owner := host.owner, function := decl.name, arity := decl.arity, index }
      (evalBlock host .nil implementation.body frame).map Prod.fst
  | none => .error (.noClause (host.owner ++ "." ++ decl.name ++ "/" ++ toString decl.arity) args)

theorem invoke_eq (machine : Machine) (notify : Dispatch → Except Fault Unit)
    (call : (owner name : String) → List Value → Except Fault Value) (owner : String)
    (decl : Declaration) (args : List Value) :
    machine.invoke notify call owner decl args
      = (do
          let full ← completeArgs (machine.hostOf call owner decl) decl args
          let found ← select? (machine.hostOf call owner decl) full 0 decl.implementations
          finish (machine.hostOf call owner decl) notify decl full found) := by
  unfold invoke
  refine bind_congr ?_
  intro full
  refine bind_congr ?_
  intro found
  match found with
  | none => rfl
  | some (index, implementation, frame) =>
      refine bind_congr ?_
      intro _
      simp only [StateT.run]
      cases evalBlock (machine.hostOf call owner decl) .nil implementation.body frame <;> rfl

/-- As many arguments as there are parameters are complete. -/
theorem completeArgs_of_length_eq (host : Host (Except Fault)) {decl : Declaration}
    {args : List Value} (full : args.length = decl.arity) :
    completeArgs host decl args = .ok args := by
  have arity : args.length = decl.forward.arity := full
  -- No more parameters are required than there are.
  have accepted : decl.forward.accepts args.length = true :=
    Core.Forward.accepts_iff.mpr ⟨arity ▸ decl.forward.required_le_arity, Nat.le_of_eq arity⟩
  unfold completeArgs
  rw [accepted, if_neg (by decide), if_pos arity]
  rfl

/-- The only implementation of a function is chosen if it admits the arguments. -/
theorem select?_single {host : Host (Except Fault)} {implementation : Implementation}
    {args : List Value} {admitted : Option Frame}
    (h : admit? host implementation args = .ok admitted) (index : Nat) :
    select? host args index [implementation]
      = .ok (admitted.map fun frame => (index, implementation, frame)) := by
  simp only [select?]
  rw [h, ok_bind]
  cases admitted <;> rfl

end Machine
end Clausal
