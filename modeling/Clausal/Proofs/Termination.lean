import Clausal.Proofs.Execution
import Clausal.Proofs.Lowering.Simulation

/-!
# Every call ends

The rules of `Clausal.Proofs.Execution` say what a run is without promising that there is one.  Here
it is shown that there always is.

* Whatever the rules derive is what the evaluator gives, and no activation is begun above the limit
  (`Calls.sound`).  The induction is on the derivation.
* The rules derive an outcome for every call (`exists_calls`).  The induction is lexicographic: on the
  depth that is left, and below that on the form of the code.

Main statement: `every_call_ends`.
-/

namespace Clausal
namespace Machine

open Clausal.Core (Declaration ForwardParam Implementation Slot)
open Outcome

/-- The host of code at a place: its calls may use the depth that is left there. -/
def hostAt (machine : Machine) (place : Place) : Host (Except Fault) :=
  machine.hostOf (machine.callWithin (fun _ => pure ()) (machine.maxDepth - place.depth))
    place.owner place.decl

/-- Activations that are begun above a depth and not above the limit. -/
def Within (machine : Machine) (depth : Nat) (trace : List Nat) : Prop :=
  ∀ d ∈ trace, depth < d ∧ d ≤ machine.maxDepth

section Within

variable {machine : Machine} {depth : Nat} {t₁ t₂ : List Nat}

theorem Within.nil : Within machine depth [] := fun _ member => nomatch member

theorem Within.append (first : Within machine depth t₁) (second : Within machine depth t₂) :
    Within machine depth (t₁ ++ t₂) := by
  intro d member
  rcases List.mem_append.mp member with inFirst | inSecond
  · exact first d inFirst
  · exact second d inSecond

/-- An activation one level deeper begins with itself. -/
theorem Within.enter (below : depth < machine.maxDepth)
    (inside : Within machine (depth + 1) t₁) : Within machine depth ((depth + 1) :: t₁) := by
  intro d member
  rcases List.mem_cons.mp member with rfl | member
  · exact ⟨Nat.lt_succ_self depth, below⟩
  · rcases inside d member with ⟨deeper, limited⟩
    exact ⟨Nat.lt_of_succ_lt deeper, limited⟩

end Within

/-! ## What the rules derive -/

section Steps

theorem bind_pure_eq {α β : Type} (x : Except Fault α) (f : α → β) :
    (x >>= fun a => pure (f a)) = x.map f := by
  cases x <;> rfl

theorem readSlot_of_empty {host : Host (Except Fault)} {frame : Frame} {slot : Slot}
    (empty : frame.get? slot = none) :
    readSlot host slot frame = .error (unboundSlot host.bindings slot) := by
  have got : (get : StateT Frame (Except Fault) Frame) frame = .ok (frame, frame) := rfl
  unfold readSlot
  rw [run_bind_of_ok got, empty]
  rfl

/-- The choice of an implementation without its place. -/
def chosen (choice : Option (Nat × Implementation × Frame)) : Option (Implementation × Frame) :=
  choice.map Prod.snd

/-- A name that no function has is a matter for the registry, at every depth. -/
theorem callWithin_of_missing {machine : Machine} {owner name : String} {args : List Value}
    (missing : machine.program.function? owner name = none) (remaining : Nat) :
    machine.callWithin (fun _ => pure ()) remaining owner name args
      = match machine.registry.get? owner with
        | some checker => callContract checker owner name args
        | none =>
            if (machine.program.module? owner).isSome then
              .error (.undefinedFunction (functionLabel owner name args))
            else .error (.unknownModule owner) := by
  have dispatched (run : String → Declaration → List Value → Except Fault Value) :
      machine.dispatch run owner name args
        = match machine.registry.get? owner with
          | some checker => callContract checker owner name args
          | none =>
              if (machine.program.module? owner).isSome then
                .error (.undefinedFunction (functionLabel owner name args))
              else .error (.unknownModule owner) := by
    unfold dispatch
    rw [missing]
    cases machine.registry.get? owner with
    | none => rfl
    | some checker => exact settle_eq _
  cases remaining with
  | zero => exact dispatched _
  | succ remaining => exact dispatched _

end Steps

section Sound

variable {machine : Machine}

mutual

theorem EvaluatesExpr.sound {place : Place} {frame : Frame} {t : List Nat}
    {e : Core.Expr} {r : Except Fault (Value × Frame)}
    (h : EvaluatesExpr machine place e frame t r) :
    evalExpr (hostAt machine place) e frame = r ∧ Within machine place.depth t := by
  -- One case for each rule: its parts run as they say, and a part that is skipped, or that stands behind a
  -- fault, adds no calls.
  match h with
  | .literal =>
      simp only [evalExpr]
      exact ⟨rfl, .nil⟩
  | .var held =>
      simp only [evalExpr]
      exact ⟨Lowering.readSlot_eq _ held, .nil⟩
  | .unset empty =>
      simp only [evalExpr]
      exact ⟨readSlot_of_empty empty, .nil⟩
  | .unary operand =>
      have ⟨run, within⟩ := operand.sound
      refine ⟨?_, within⟩
      simp only [evalExpr_unary, run]
  | @EvaluatesExpr.leftFault _ _ op _ _ _ _ _ first =>
      have ⟨run, within⟩ := first.sound
      refine ⟨?_, within⟩
      cases op with
      | strict op => rw [evalExpr_strict, run, error_bind]
      | and => rw [evalExpr_and, run, error_bind]
      | or => rw [evalExpr_or, run, error_bind]
  | .strict first second =>
      have ⟨run₁, within₁⟩ := first.sound
      have ⟨run₂, within₂⟩ := second.sound
      refine ⟨?_, within₁.append within₂⟩
      simp only [evalExpr_strict, run₁, ok_bind, run₂]
  | .andWrong first wrong =>
      have ⟨run, within⟩ := first.sound
      refine ⟨?_, within⟩
      simp only [evalExpr_and, run, ok_bind, wrong, error_bind]
  | .andFalse first decided =>
      have ⟨run, within⟩ := first.sound
      refine ⟨?_, within⟩
      simp only [evalExpr_and, run, ok_bind, decided, if_neg Bool.false_ne_true]
  | .andTrue first open_ second =>
      have ⟨run₁, within₁⟩ := first.sound
      have ⟨run₂, within₂⟩ := second.sound
      refine ⟨?_, within₁.append within₂⟩
      simp only [evalExpr_and, run₁, ok_bind, open_, if_true, run₂]
  | .orWrong first wrong =>
      have ⟨run, within⟩ := first.sound
      refine ⟨?_, within⟩
      simp only [evalExpr_or, run, ok_bind, wrong, error_bind]
  | .orTrue first decided =>
      have ⟨run, within⟩ := first.sound
      refine ⟨?_, within⟩
      simp only [evalExpr_or, run, ok_bind, decided, if_true]
  | .orFalse first open_ second =>
      have ⟨run₁, within₁⟩ := first.sound
      have ⟨run₂, within₂⟩ := second.sound
      refine ⟨?_, within₁.append within₂⟩
      simp only [evalExpr_or, run₁, ok_bind, open_, ok_bind, if_neg Bool.false_ne_true, run₂]
  | .argsFault first =>
      have ⟨run, within⟩ := first.sound
      refine ⟨?_, within⟩
      simp only [evalExpr_call, run, error_bind]
  | .builtin first =>
      have ⟨run, within⟩ := first.sound
      rw [evalExpr_call, run, ok_bind]
      exact ⟨settle_run _ _, within⟩
  | .own first second =>
      have ⟨run₁, within₁⟩ := first.sound
      have ⟨run₂, within₂⟩ := second.sound
      -- The called function has a frame of its own; the one of the caller is handed on.
      rw [evalExpr_call, run₁, ok_bind, ← run₂]
      exact ⟨lift_run _ _, within₁.append within₂⟩
  | .remote first second =>
      have ⟨run₁, within₁⟩ := first.sound
      have ⟨run₂, within₂⟩ := second.sound
      rw [evalExpr_call, run₁, ok_bind, ← run₂]
      exact ⟨lift_run _ _, within₁.append within₂⟩
  | .list parts =>
      have ⟨run, within⟩ := parts.sound
      refine ⟨?_, within⟩
      simp only [evalExpr_list, run]
  | .itemsFault first =>
      have ⟨run, within⟩ := first.sound
      refine ⟨?_, within⟩
      simp only [evalExpr_listTail, run, error_bind]
  | .listTail first second =>
      have ⟨run₁, within₁⟩ := first.sound
      have ⟨run₂, within₂⟩ := second.sound
      refine ⟨?_, within₁.append within₂⟩
      simp only [evalExpr_listTail, run₁, ok_bind, run₂]
  | .tuple parts =>
      have ⟨run, within⟩ := parts.sound
      refine ⟨?_, within⟩
      simp only [evalExpr_tuple, run]
  | .map parts =>
      have ⟨run, within⟩ := parts.sound
      refine ⟨?_, within⟩
      simp only [evalExpr_map, run]
  | .field part =>
      have ⟨run, within⟩ := part.sound
      refine ⟨?_, within⟩
      simp only [evalExpr_field, run]
  | .conditionFault first =>
      have ⟨run, within⟩ := first.sound
      refine ⟨?_, within⟩
      simp only [evalExpr_cond, run, error_bind]
  | .conditionWrong first wrong =>
      have ⟨run, within⟩ := first.sound
      refine ⟨?_, within⟩
      simp only [evalExpr_cond, run, ok_bind, wrong, error_bind]
  | .cond first taken second =>
      have ⟨run₁, within₁⟩ := first.sound
      have ⟨run₂, within₂⟩ := second.sound
      refine ⟨?_, within₁.append within₂⟩
      simp only [evalExpr_cond, run₁, ok_bind, taken, ok_bind, run₂]
  | .record parts =>
      have ⟨run, within⟩ := parts.sound
      unfold hostAt at run ⊢
      refine ⟨?_, within⟩
      simp only [evalExpr_record, run]

theorem EvaluatesExprs.sound {place : Place} {frame : Frame} {t : List Nat}
    {es : List Core.Expr} {r : Except Fault (List Value × Frame)}
    (h : EvaluatesExprs machine place es frame t r) :
    evalExprs (hostAt machine place) es frame = r ∧ Within machine place.depth t := by
  match h with
  | .nil =>
      simp only [evalExprs]
      exact ⟨rfl, .nil⟩
  | .headFault first =>
      have ⟨run, within⟩ := first.sound
      refine ⟨?_, within⟩
      simp only [evalExprs_cons, run, error_bind]
  | .cons first second =>
      have ⟨run₁, within₁⟩ := first.sound
      have ⟨run₂, within₂⟩ := second.sound
      refine ⟨?_, within₁.append within₂⟩
      simp only [evalExprs_cons, run₁, ok_bind, run₂]

theorem EvaluatesEntries.sound {place : Place} {frame : Frame} {t : List Nat}
    {es : List (Core.Expr × Core.Expr)}
    {r : Except Fault (List (Value × Value) × Frame)}
    (h : EvaluatesEntries machine place es frame t r) :
    evalEntries (hostAt machine place) es frame = r ∧ Within machine place.depth t := by
  match h with
  | .nil =>
      simp only [evalEntries]
      exact ⟨rfl, .nil⟩
  | .keyFault first =>
      have ⟨run, within⟩ := first.sound
      refine ⟨?_, within⟩
      simp only [evalEntries_cons, run, error_bind]
  | .valueFault first second =>
      have ⟨run₁, within₁⟩ := first.sound
      have ⟨run₂, within₂⟩ := second.sound
      refine ⟨?_, within₁.append within₂⟩
      simp only [evalEntries_cons, run₁, ok_bind, run₂, error_bind]
  | .cons first second third =>
      have ⟨run₁, within₁⟩ := first.sound
      have ⟨run₂, within₂⟩ := second.sound
      have ⟨run₃, within₃⟩ := third.sound
      refine ⟨?_, within₁.append (within₂.append within₃)⟩
      simp only [evalEntries_cons, run₁, ok_bind, run₂, ok_bind, run₃]

theorem ExecutesBlock.sound {place : Place} {frame : Frame} {t : List Nat}
    {last : Value} {block : List Core.Stmt}
    {r : Except Fault (Value × Frame)} (h : ExecutesBlock machine place last block frame t r) :
    evalBlock (hostAt machine place) last block frame = r ∧ Within machine place.depth t := by
  match h with
  | .nil =>
      simp only [evalBlock]
      exact ⟨rfl, .nil⟩
  | .bindFault first =>
      have ⟨run, within⟩ := first.sound
      refine ⟨?_, within⟩
      simp only [evalBlock_bind, run, error_bind]
  | .bind first second =>
      have ⟨run₁, within₁⟩ := first.sound
      have ⟨run₂, within₂⟩ := second.sound
      refine ⟨?_, within₁.append within₂⟩
      simp only [evalBlock_bind, run₁, ok_bind, run₂]
  | .validateFault refused =>
      unfold hostAt
      refine ⟨?_, .nil⟩
      simp only [evalBlock_validate, refused, error_bind]
  | .validate accepted second =>
      have ⟨run, within⟩ := second.sound
      unfold hostAt at run ⊢
      refine ⟨?_, within⟩
      simp only [evalBlock_validate, accepted, ok_bind, run]
  | .exprFault first =>
      have ⟨run, within⟩ := first.sound
      refine ⟨?_, within⟩
      simp only [evalBlock_expr, run, error_bind]
  | .expr first second =>
      have ⟨run₁, within₁⟩ := first.sound
      have ⟨run₂, within₂⟩ := second.sound
      refine ⟨?_, within₁.append within₂⟩
      simp only [evalBlock_expr, run₁, ok_bind, run₂]

theorem FillsDefaults.sound {place : Place} {t : List Nat} {spare : Nat}
    {params : List ForwardParam} {args : List Value}
    {r : Except Fault (List Value)} (h : FillsDefaults machine place spare params args t r) :
    fillDefaults (hostAt machine place) spare params args = r ∧ Within machine place.depth t := by
  match h with
  | .nil =>
      simp only [fillDefaults]
      exact ⟨rfl, .nil⟩
  | .defaultFault given first =>
      have ⟨run, within⟩ := first.sound
      simp only [fillDefaults, given, StateT.run]
      rw [run, error_bind]
      exact ⟨rfl, within⟩
  | .default given first second =>
      have ⟨run₁, within₁⟩ := first.sound
      have ⟨run₂, within₂⟩ := second.sound
      simp only [fillDefaults, given, StateT.run]
      rw [run₁, ok_bind, run₂]
      exact ⟨bind_pure_eq _ _, within₁.append within₂⟩
  | .spare given rest =>
      have ⟨run, within⟩ := rest.sound
      simp only [fillDefaults, given]
      rw [run]
      exact ⟨bind_pure_eq _ _, within⟩
  | .required given rest =>
      have ⟨run, within⟩ := rest.sound
      simp only [fillDefaults, given]
      rw [run]
      exact ⟨bind_pure_eq _ _, within⟩

theorem CompletesArgs.sound {place : Place} {t : List Nat} {args : List Value} {r : Except Fault (List Value)}
    (h : CompletesArgs machine place args t r) :
    completeArgs (hostAt machine place) place.decl args = r ∧ Within machine place.depth t := by
  match h with
  | .refused count =>
      unfold completeArgs
      rw [count, if_pos (by decide)]
      exact ⟨rfl, .nil⟩
  | .full count accepted => exact ⟨completeArgs_of_length_eq _ count, .nil⟩
  | .filled count accepted rest =>
      have ⟨run, within⟩ := rest.sound
      unfold completeArgs
      rw [accepted, if_neg (by decide), if_neg count]
      exact ⟨run, within⟩

theorem Chooses.sound {place : Place} {t : List Nat} {args : List Value} {implementations : List Implementation}
    {choice : Option (Implementation × Frame)}
    (h : Chooses machine place args implementations t choice) (index : Nat) :
    (select? (hostAt machine place) args index implementations).map chosen = .ok choice ∧
      Within machine place.depth t := by
  match h with
  | .none => exact ⟨rfl, .nil⟩
  | .mismatch matched second =>
      have ⟨run, within⟩ := second.sound (index + 1)
      rw [select?_of_refused (admit?_of_mismatch matched)]
      exact ⟨run, within⟩
  | .plain matched unguarded =>
      rw [select?_of_admitted (admit?_of_unguarded matched unguarded)]
      exact ⟨rfl, .nil⟩
  | .holds matched guarded first true_ =>
      have ⟨run, within⟩ := first.sound
      have admitted := admit?_of_guard_ok matched guarded run
      rw [if_pos true_] at admitted
      rw [select?_of_admitted admitted]
      exact ⟨rfl, within⟩
  | .fails matched guarded first false_ second =>
      have ⟨run₁, within₁⟩ := first.sound
      have ⟨run₂, within₂⟩ := second.sound (index + 1)
      have refused := admit?_of_guard_ok matched guarded run₁
      rw [false_, if_neg Bool.false_ne_true] at refused
      rw [select?_of_refused refused]
      exact ⟨run₂, within₁.append within₂⟩
  | .guardFault matched guarded first second =>
      -- A guard that ends with a fault refuses its clause.
      have ⟨run₁, within₁⟩ := first.sound
      have ⟨run₂, within₂⟩ := second.sound (index + 1)
      rw [select?_of_refused (admit?_of_guard_error matched guarded run₁)]
      exact ⟨run₂, within₁.append within₂⟩

theorem Invokes.sound {place : Place} {t : List Nat} {args : List Value} {r : Except Fault Value}
    (h : Invokes machine place args t r) :
    machine.invoke (fun _ => pure ())
        (machine.callWithin (fun _ => pure ()) (machine.maxDepth - place.depth))
        place.owner place.decl args = r ∧
      Within machine place.depth t := by
  rw [invoke_eq]
  match h with
  | .argsFault first =>
      have ⟨run, within⟩ := first.sound
      unfold hostAt at run
      rw [run, error_bind]
      exact ⟨rfl, within⟩
  | .noClause first second =>
      have ⟨run₁, within₁⟩ := first.sound
      have ⟨run₂, within₂⟩ := second.sound 0
      -- The rule forgets the place of the clause, so the choice is read back from what was chosen.
      rcases map_eq_ok.mp run₂ with ⟨_ | _, selected, choice⟩
      · unfold hostAt at run₁ selected
        rw [run₁, ok_bind, selected, ok_bind]
        exact ⟨rfl, within₁.append within₂⟩
      · cases choice
  | .body first second third =>
      have ⟨run₁, within₁⟩ := first.sound
      have ⟨run₂, within₂⟩ := second.sound 0
      have ⟨run₃, within₃⟩ := third.sound
      rcases map_eq_ok.mp run₂ with ⟨_ | ⟨place, i, frame⟩, selected, choice⟩
      · cases choice
      · cases choice
        unfold hostAt at run₁ selected run₃
        rw [run₁, ok_bind, selected, ok_bind, ← run₃]
        exact ⟨rfl, within₁.append (within₂.append within₃)⟩

theorem Calls.sound {depth : Nat} {t : List Nat} {owner name : String} {args : List Value}
    {r : Except Fault Value} (h : Calls machine depth owner name args t r) :
    machine.callWithin (fun _ => pure ()) (machine.maxDepth - depth) owner name args = r ∧
      Within machine depth t := by
  match h with
  | .overflow found reached =>
      rw [Nat.sub_eq_zero_of_le reached]
      simp only [callWithin, dispatch, found]
      exact ⟨rfl, .nil⟩
  | .invoke found below run =>
      have ⟨run, within⟩ := run.sound
      -- The activation has one level less to go than the call that began it.
      have left : machine.maxDepth - depth = machine.maxDepth - (depth + 1) + 1 := by omega
      rw [left]
      simp only [callWithin, dispatch, found]
      exact ⟨run, within.enter below⟩
  | .contract missing registered =>
      refine ⟨?_, .nil⟩
      rw [callWithin_of_missing missing, registered]
  | .undefined missing unregistered known =>
      refine ⟨?_, .nil⟩
      rw [callWithin_of_missing missing, unregistered, known]
      rfl
  | .unknown missing unregistered unknown =>
      refine ⟨?_, .nil⟩
      rw [callWithin_of_missing missing, unregistered, unknown]
      rfl

end

end Sound

/-! ## An outcome for everything -/

section Total

variable {machine : Machine} {place : Place}

/-- Every call that is made at a depth has an outcome. -/
def CallsEnd (machine : Machine) (depth : Nat) : Prop :=
  ∀ owner name args, ∃ t r, Calls machine depth owner name args t r

mutual

/-- Where calls end, expressions end.  The recursion is on the form of the code alone. -/
theorem exists_evaluatesExpr (calls : CallsEnd machine place.depth) (e : Core.Expr)
    (frame : Frame) : ∃ t r, EvaluatesExpr machine place e frame t r := by
  cases e with
  | literal value => exact ⟨_, _, .literal⟩
  | var slot =>
      cases held : frame.get? slot with
      | none => exact ⟨_, _, .unset held⟩
      | some value => exact ⟨_, _, .var held⟩
  | unary op operand =>
      rcases exists_evaluatesExpr calls operand frame with ⟨t, r, run⟩
      exact ⟨_, _, .unary run⟩
  | binary op left right =>
      rcases exists_evaluatesExpr calls left frame with ⟨t₁, _ | ⟨a, frame₁⟩, first⟩
      · exact ⟨_, _, .leftFault first⟩
      · rcases exists_evaluatesExpr calls right frame₁ with ⟨t₂, r, second⟩
        -- The right operand ends too, but a logical operator may not get to it.
        cases op with
        | strict op => exact ⟨_, _, .strict first second⟩
        | and =>
            cases truth : truthOf .and a with
            | error fault => exact ⟨_, _, .andWrong first truth⟩
            | ok b =>
                cases b with
                | false => exact ⟨_, _, .andFalse first truth⟩
                | true => exact ⟨_, _, .andTrue first truth second⟩
        | or =>
            cases truth : truthOf .or a with
            | error fault => exact ⟨_, _, .orWrong first truth⟩
            | ok b =>
                cases b with
                | false => exact ⟨_, _, .orFalse first truth second⟩
                | true => exact ⟨_, _, .orTrue first truth⟩
  | call callee args =>
      rcases exists_evaluatesExprs calls args frame with ⟨t₁, _ | ⟨values, frame₁⟩, first⟩
      · exact ⟨_, _, .argsFault first⟩
      · cases callee with
        | builtin builtin => exact ⟨_, _, .builtin first⟩
        | own name =>
            rcases calls place.owner name values with ⟨t₂, r, second⟩
            exact ⟨_, _, .own first second⟩
        | remote owner name =>
            rcases calls owner name values with ⟨t₂, r, second⟩
            exact ⟨_, _, .remote first second⟩
  | list items =>
      rcases exists_evaluatesExprs calls items frame with ⟨t, r, run⟩
      exact ⟨_, _, .list run⟩
  | listTail items tail =>
      rcases exists_evaluatesExprs calls items frame with ⟨t₁, _ | ⟨values, frame₁⟩, first⟩
      · exact ⟨_, _, .itemsFault first⟩
      · rcases exists_evaluatesExpr calls tail frame₁ with ⟨t₂, r, second⟩
        exact ⟨_, _, .listTail first second⟩
  | tuple items =>
      rcases exists_evaluatesExprs calls items frame with ⟨t, r, run⟩
      exact ⟨_, _, .tuple run⟩
  | map entries =>
      rcases exists_evaluatesEntries calls entries frame with ⟨t, r, run⟩
      exact ⟨_, _, .map run⟩
  | field target name =>
      rcases exists_evaluatesExpr calls target frame with ⟨t, r, run⟩
      exact ⟨_, _, .field run⟩
  | cond condition yes no =>
      rcases exists_evaluatesExpr calls condition frame with ⟨t₁, _ | ⟨v, frame₁⟩, first⟩
      · exact ⟨_, _, .conditionFault first⟩
      · cases taken : branchOf v with
        | error fault => exact ⟨_, _, .conditionWrong first taken⟩
        | ok branch =>
            cases branch with
            | true =>
                rcases exists_executesBlock calls .nil yes frame₁ with ⟨t₂, r, second⟩
                exact ⟨_, _, .cond first taken second⟩
            | false =>
                rcases exists_executesBlock calls .nil no frame₁ with ⟨t₂, r, second⟩
                exact ⟨_, _, .cond first taken second⟩
  | record op struct args =>
      rcases exists_evaluatesExprs calls args frame with ⟨t, r, run⟩
      exact ⟨_, _, .record run⟩

theorem exists_evaluatesExprs (calls : CallsEnd machine place.depth) (es : List Core.Expr)
    (frame : Frame) : ∃ t r, EvaluatesExprs machine place es frame t r := by
  cases es with
  | nil => exact ⟨_, _, .nil⟩
  | cons e es =>
      rcases exists_evaluatesExpr calls e frame with ⟨t₁, _ | ⟨v, frame₁⟩, first⟩
      · exact ⟨_, _, .headFault first⟩
      · rcases exists_evaluatesExprs calls es frame₁ with ⟨t₂, r, second⟩
        exact ⟨_, _, .cons first second⟩

theorem exists_evaluatesEntries (calls : CallsEnd machine place.depth)
    (es : List (Core.Expr × Core.Expr)) (frame : Frame) :
    ∃ t r, EvaluatesEntries machine place es frame t r := by
  match es with
  | [] => exact ⟨_, _, .nil⟩
  | (k, v) :: es =>
      rcases exists_evaluatesExpr calls k frame with ⟨t₁, _ | ⟨key, frame₁⟩, first⟩
      · exact ⟨_, _, .keyFault first⟩
      · rcases exists_evaluatesExpr calls v frame₁ with ⟨t₂, _ | ⟨value, frame₂⟩, second⟩
        · exact ⟨_, _, .valueFault first second⟩
        · rcases exists_evaluatesEntries calls es frame₂ with ⟨t₃, r, third⟩
          exact ⟨_, _, .cons first second third⟩

theorem exists_executesBlock (calls : CallsEnd machine place.depth) (last : Value)
    (block : List Core.Stmt) (frame : Frame) :
    ∃ t r, ExecutesBlock machine place last block frame t r := by
  match block with
  | [] => exact ⟨_, _, .nil⟩
  | .bind slot e :: rest =>
      rcases exists_evaluatesExpr calls e frame with ⟨t₁, _ | ⟨v, frame₁⟩, first⟩
      · exact ⟨_, _, .bindFault first⟩
      · rcases exists_executesBlock calls v rest (frame₁.set slot v) with ⟨t₂, r, second⟩
        exact ⟨_, _, .bind first second⟩
  | .validate slot checker :: rest =>
      cases checked : checkSlot machine place.decl.bindings frame slot checker with
      | error fault => exact ⟨_, _, .validateFault checked⟩
      | ok v =>
          rcases exists_executesBlock calls v rest (frame.set slot v) with ⟨t, r, second⟩
          exact ⟨_, _, .validate checked second⟩
  | .expr e :: rest =>
      rcases exists_evaluatesExpr calls e frame with ⟨t₁, _ | ⟨v, frame₁⟩, first⟩
      · exact ⟨_, _, .exprFault first⟩
      · rcases exists_executesBlock calls v rest frame₁ with ⟨t₂, r, second⟩
        exact ⟨_, _, .expr first second⟩

end

theorem exists_fillsDefaults (calls : CallsEnd machine place.depth) (spare : Nat)
    (params : List ForwardParam) (args : List Value) :
    ∃ t r, FillsDefaults machine place spare params args t r := by
  induction params generalizing spare args with
  | nil => exact ⟨_, _, .nil⟩
  | cons param params ih =>
      cases given : param.default with
      | none =>
          rcases ih spare (args.drop 1) with ⟨t, r, rest⟩
          exact ⟨_, _, .required given rest⟩
      | some code =>
          cases spare with
          | succ spare =>
              rcases ih spare (args.drop 1) with ⟨t, r, rest⟩
              exact ⟨_, _, .spare given rest⟩
          | zero =>
              -- No argument is left for this parameter.
              rcases exists_evaluatesExpr calls code .empty with ⟨t₁, _ | ⟨v, frame⟩, first⟩
              · exact ⟨_, _, .defaultFault given first⟩
              · rcases ih 0 args with ⟨t₂, r, second⟩
                exact ⟨_, _, .default given first second⟩

theorem exists_completesArgs (calls : CallsEnd machine place.depth) (args : List Value) :
    ∃ t r, CompletesArgs machine place args t r := by
  cases accepted : place.decl.forward.accepts args.length with
  | false => exact ⟨_, _, .refused accepted⟩
  | true =>
      by_cases count : args.length = place.decl.forward.arity
      · exact ⟨_, _, .full count accepted⟩
      · rcases exists_fillsDefaults calls _ place.decl.forward.params args with ⟨t, r, rest⟩
        exact ⟨_, _, .filled count accepted rest⟩

theorem exists_chooses (calls : CallsEnd machine place.depth) (args : List Value)
    (implementations : List Implementation) :
    ∃ t choice, Chooses machine place args implementations t choice := by
  induction implementations with
  | nil => exact ⟨_, _, .none⟩
  | cons i rest ih =>
      rcases ih with ⟨t₂, choice, second⟩
      cases matched : matchAll? i.patterns args .empty with
      | none => exact ⟨_, _, .mismatch matched second⟩
      | some frame =>
          cases guarded : i.guard with
          | none => exact ⟨_, _, .plain matched guarded⟩
          | some guard =>
              -- Whatever the guard ends with, the clauses behind it are there to go on with.
              rcases exists_evaluatesExpr calls guard frame with ⟨t₁, fault | ⟨v, frame₁⟩, first⟩
              · exact ⟨_, _, .guardFault matched guarded first second⟩
              · cases truth : isTrue v with
                | true => exact ⟨_, _, .holds matched guarded first truth⟩
                | false => exact ⟨_, _, .fails matched guarded first truth second⟩

theorem exists_invokes (calls : CallsEnd machine place.depth) (args : List Value) :
    ∃ t r, Invokes machine place args t r := by
  rcases exists_completesArgs calls args with ⟨t₁, _ | full, first⟩
  · exact ⟨_, _, .argsFault first⟩
  · rcases exists_chooses calls full place.decl.implementations with
      ⟨t₂, _ | ⟨i, frame⟩, second⟩
    · exact ⟨_, _, .noClause first second⟩
    · rcases exists_executesBlock calls .nil i.body frame with ⟨t₃, r, third⟩
      exact ⟨_, _, .body first second third⟩

/-- A call ends if those end that are made one level deeper, or if there is no such level. -/
theorem callsEnd_step {depth : Nat}
    (deeper : depth < machine.maxDepth → CallsEnd machine (depth + 1)) :
    CallsEnd machine depth := by
  intro owner name args
  cases found : machine.program.function? owner name with
  | some decl =>
      rcases Nat.lt_or_ge depth machine.maxDepth with below | reached
      · have inside : CallsEnd machine (Place.mk (depth + 1) owner decl).depth := deeper below
        rcases exists_invokes inside args with ⟨t, r, run⟩
        exact ⟨_, _, .invoke found below run⟩
      -- At the limit the function is not entered, so nothing deeper has to end.
      · exact ⟨_, _, .overflow found reached⟩
  | none =>
      cases registered : machine.registry.get? owner with
      | some checker => exact ⟨_, _, .contract found registered⟩
      | none =>
          cases known : (machine.program.module? owner).isSome with
          | true => exact ⟨_, _, .undefined found registered known⟩
          | false => exact ⟨_, _, .unknown found registered known⟩

/-- Every call ends: the depth rises from call to call, and calls at the limit begin nothing. -/
theorem callsEnd (machine : Machine) (depth : Nat) : CallsEnd machine depth := by
  -- The induction is on the number of levels between the depth and the limit.
  induction left : machine.maxDepth - depth generalizing depth with
  | zero =>
      refine callsEnd_step ?_
      intro below
      omega
  | succ left ih =>
      refine callsEnd_step ?_
      intro below
      exact ih (depth + 1) (by omega)

end Total

/-! ## Main statement -/

/-- Every call ends, whatever the program, the registry and the limit.

The rules give an outcome to every call at every depth, and to everything that can run on the way:
an activation, the defaults of its parameters, a block and an expression.  A call from outside has
the outcome that the machine computes.  No activation is begun above the limit, and a function that is
called at the limit overflows the stack without beginning one. -/
theorem every_call_ends (machine : Machine) :
    (∀ depth owner name args, ∃ trace outcome,
      Calls machine depth owner name args trace outcome) ∧
    (∀ place,
      (∀ args, ∃ trace outcome, Invokes machine place args trace outcome) ∧
      (∀ spare params args, ∃ trace outcome,
        FillsDefaults machine place spare params args trace outcome) ∧
      (∀ last block frame, ∃ trace outcome,
        ExecutesBlock machine place last block frame trace outcome) ∧
      (∀ e frame, ∃ trace outcome, EvaluatesExpr machine place e frame trace outcome)) ∧
    (∀ owner name args outcome,
      (∃ trace, Calls machine 0 owner name args trace outcome) ↔
        machine.call owner name args = outcome) ∧
    (∀ depth owner name args trace outcome, Calls machine depth owner name args trace outcome →
      (∀ d ∈ trace, depth < d ∧ d ≤ machine.maxDepth) ∧
      ((machine.program.function? owner name).isSome → machine.maxDepth ≤ depth →
        trace = [] ∧ outcome = .error (.stackOverflow machine.maxDepth))) := by
  refine ⟨callsEnd machine, ?_, ?_, ?_⟩
  · intro place
    have calls := callsEnd machine place.depth
    exact ⟨exists_invokes calls, exists_fillsDefaults calls, exists_executesBlock calls,
      exists_evaluatesExpr calls⟩
  · intro owner name args outcome
    constructor
    · rintro ⟨trace, run⟩
      exact run.sound.1
    · rintro rfl
      rcases callsEnd machine 0 owner name args with ⟨trace, outcome, run⟩
      have agrees : machine.call owner name args = outcome := run.sound.1
      rw [agrees]
      exact ⟨trace, run⟩
  · intro depth owner name args trace outcome run
    refine ⟨run.sound.2, ?_⟩
    intro function reached
    cases run with
    | overflow => exact ⟨rfl, rfl⟩
    | invoke _ below _ => exact absurd below (Nat.not_lt_of_le reached)
    | contract missing _ => rw [missing] at function; cases function
    | undefined missing _ _ => rw [missing] at function; cases function
    | unknown missing _ _ => rw [missing] at function; cases function

end Machine
end Clausal
