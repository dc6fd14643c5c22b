import Clausal.Proofs.Assignment
import Clausal.Proofs.Lowering.Program

/-!
# No call ends for want of a variable

The message of an unset variable ends in "is not bound".  No other fault is worded so, since every
other type error ends with a value shown in parentheses or with a number (`Quiet`).  An evaluation
that reads only what is set is therefore quiet (`evalExpr_quiet`), and so is every call of a
compiled program (`callWithin_quiet`).
-/

namespace Clausal

/-! ## Wordings -/

/-- The fault of a variable that is not set. -/
def Fault.IsUnbound (fault : Fault) : Prop := ∃ name, fault = .typeError (name ++ " is not bound")

/-- A fault whose wording, if it is a type error, does not end as that of an unset variable. -/
def Fault.Quiet (fault : Fault) : Prop :=
  ∀ message, fault = .typeError message → message.toList.getLast? ≠ some 'd'

theorem Fault.Quiet.not_isUnbound {fault : Fault} (h : fault.Quiet) : ¬fault.IsUnbound := by
  rintro ⟨name, rfl⟩
  -- Whatever the name, the last character of the message is the last one of its ending.
  refine h _ rfl ?_
  have ending : " is not bound".toList.getLast? = some 'd' := by decide
  rw [String.toList_append, List.getLast?_append, ending]
  rfl

theorem Value.getLast?_shown (v : Value) : v.shown.toList.getLast? = some ')' := by
  have ending : ")".toList.getLast? = some ')' := by decide
  unfold Value.shown
  rw [String.toList_append, List.getLast?_append, ending]
  rfl

theorem Fault.quiet_shown (start : String) (v : Value) : (typeError (start ++ v.shown)).Quiet := by
  rintro message ⟨⟩
  rw [String.toList_append, List.getLast?_append, v.getLast?_shown, Option.some_or]
  decide

theorem Fault.quiet_count (start : String) (n : Nat) : (typeError (start ++ toString n)).Quiet := by
  rintro message ⟨⟩ ending
  have digits : (toString n).toList = Nat.toDigits 10 n := Nat.toList_repr
  rw [String.toList_append, digits, List.getLast?_append,
    List.getLast?_eq_some_getLast Nat.toDigits_ne_nil, Option.some_or, Option.some.injEq] at ending
  -- The last character of a number is a digit, and `d` is none.
  have isDigit : Char.isDigit 'd' = true := by
    rw [← ending]
    exact Nat.isDigit_of_mem_toDigits (by decide) (by decide) (List.getLast_mem _)
  exact absurd isDigit (by decide)

/-! ## Operations on values -/

/-- A result whose fault, if it is one, is quiet. -/
def QuietResult {α : Type} (result : Except Fault α) : Prop :=
  ∀ fault, result = .error fault → fault.Quiet

namespace QuietResult

variable {α : Type}

theorem ok (a : α) : QuietResult (.ok a) := by
  rintro fault ⟨⟩

theorem error {fault : Fault} (h : fault.Quiet) : QuietResult (.error fault : Except Fault α) := by
  rintro _ ⟨⟩
  exact h

theorem bind {β : Type} {x : Except Fault α} {f : α → Except Fault β} (first : QuietResult x)
    (next : ∀ a, QuietResult (f a)) : QuietResult (x >>= f) := by
  cases x with
  | ok a => exact next a
  | error fault => exact .error (first fault rfl)

theorem map {β : Type} {x : Except Fault α} {f : α → β} (first : QuietResult x) :
    QuietResult (x.map f) := by
  cases x with
  | ok a => exact .ok _
  | error fault => exact .error (first fault rfl)

/-- Only type errors are worded freely. -/
theorem other {fault : Fault} (h : ∀ message, fault ≠ .typeError message) :
    QuietResult (.error fault : Except Fault α) :=
  error fun message same => absurd same (h message)

end QuietResult

open Fault (quiet_shown quiet_count)

namespace Value

theorem checked_quiet (n : Int) (operation : String) : QuietResult (checked n operation) := by
  unfold checked
  split
  · exact .ok _
  · exact .other nofun

theorem arithmetic_quiet (op : StrictOp) (onInts : Int → Int → Int)
    (onFloats : Float → Float → Float) (a b : Value) :
    QuietResult (arithmetic op onInts onFloats a b) := by
  unfold arithmetic
  split
  · exact checked_quiet _ _
  · split
    · exact .ok _
    · exact .error (quiet_shown _ _)

theorem divide_quiet (a b : Value) : QuietResult (divide a b) := by
  unfold divide
  split
  · split
    · exact .other nofun
    · exact .ok _
  · exact .error (quiet_shown _ _)

theorem join_quiet (a b : Value) : QuietResult (join a b) := by
  unfold join
  split
  · exact .ok _
  · exact .ok _
  · exact .error (quiet_shown _ _)

theorem ordered_quiet (op : StrictOp) (test : Ordering → Bool) (a b : Value) :
    QuietResult (ordered op test a b) := by
  unfold ordered
  split
  · exact .ok _
  · exact .error (quiet_shown _ _)

theorem apply_quiet (op : StrictOp) (a b : Value) : QuietResult (apply op a b) := by
  cases op with
  | add | sub | mul => exact arithmetic_quiet _ _ _ a b
  | div => exact divide_quiet a b
  | equal | notEqual => exact .ok _
  | less | greater | lessEqual | greaterEqual => exact ordered_quiet _ _ a b
  | concat => exact join_quiet a b

theorem negate_quiet (a : Value) : QuietResult (negate a) := by
  unfold negate
  split
  · exact checked_quiet _ _
  · exact .ok _
  · exact .error (quiet_shown _ _)

theorem complement_quiet (a : Value) : QuietResult (complement a) := by
  unfold complement
  split
  · exact .ok _
  · exact .error (quiet_shown _ _)

theorem applyUnary_quiet (op : UnaryOp) (a : Value) : QuietResult (applyUnary op a) := by
  cases op with
  | neg => exact negate_quiet a
  | not => exact complement_quiet a

end Value

namespace Machine

theorem badArgument_quiet (builtin : Core.Builtin) (value : Value) :
    (badArgument builtin value).Quiet := quiet_shown _ _

theorem choose_quiet (builtin : Core.Builtin) (keep : Ordering → Bool) (x y : Value) :
    QuietResult (choose builtin keep x y) := by
  unfold choose
  split
  · exact .ok _
  · exact .error (quiet_shown _ _)

theorem elementAt_quiet (x y : Value) : QuietResult (elementAt x y) := by
  unfold elementAt
  split
  · split
    · exact .ok _
    · exact .error (quiet_count _ _)
  · exact .error (badArgument_quiet _ _)

theorem lookUp_quiet (x key : Value) : QuietResult (lookUp x key) := by
  unfold lookUp
  split
  · exact .ok _
  · split <;> exact .ok _
  · exact .error (badArgument_quiet _ _)

theorem absolute_quiet (x : Value) : QuietResult (absolute x) := by
  unfold absolute
  split
  · exact Value.checked_quiet _ _
  · exact .ok _
  · exact .error (badArgument_quiet _ _)

theorem applyOne_quiet (builtin : Core.Builtin) (x : Value) : QuietResult (applyOne builtin x) := by
  cases builtin with
  | abs => exact absolute_quiet x
  | length | hd | tl =>
      unfold applyOne
      dsimp only
      split
      · exact .ok _
      · exact .error (badArgument_quiet _ _)
  | min | max | elem | mapGet => exact .error (badArgument_quiet _ _)
  | _ => exact .ok _

theorem applyTwo_quiet (builtin : Core.Builtin) (x y : Value) :
    QuietResult (applyTwo builtin x y) := by
  cases builtin with
  | min | max => exact choose_quiet _ _ x y
  | elem => exact elementAt_quiet x y
  | mapGet => exact lookUp_quiet x y
  | _ => exact .error (badArgument_quiet _ _)

theorem applyBuiltin_quiet (builtin : Core.Builtin) (args : List Value) :
    QuietResult (applyBuiltin builtin args) := by
  unfold applyBuiltin
  split
  · exact .other nofun
  · split
    · exact applyOne_quiet _ _
    · exact applyTwo_quiet _ _ _
    · exact .other nofun

theorem applyRecordOp_quiet (schema : RecordSchema) (struct : String) (op : Core.RecordOp)
    (args : List Value) : QuietResult (applyRecordOp schema struct op args) := by
  unfold applyRecordOp
  split
  · split
    · split
      · exact .ok _
      · exact .other nofun
    · exact .ok _
  · split <;> exact .ok _
  · split
    · exact .other nofun
    · split <;> exact .ok _
  · exact .other nofun

theorem fieldOf_quiet (target : Value) (name : String) : QuietResult (fieldOf target name) := by
  unfold fieldOf
  dsimp only
  split
  · exact .ok _
  · exact .other (by simp)

theorem tailItems_quiet (v : Value) : QuietResult (tailItems v) := by
  unfold tailItems
  split
  · exact .ok _
  · exact .error (quiet_shown _ _)

theorem branchOf_quiet (v : Value) : QuietResult (branchOf v) := by
  unfold branchOf
  split
  · exact .ok _
  · exact .error (quiet_shown _ _)

theorem truthOf_quiet (op : BinaryOp) (v : Value) : QuietResult (truthOf op v) := by
  unfold truthOf
  split
  · exact .ok _
  · exact .error (quiet_shown _ _)

theorem callContract_quiet (checker : ValueModule) (owner name : String) (args : List Value) :
    QuietResult (callContract checker owner name args) := by
  unfold callContract
  split
  · split <;> exact .ok _
  · split <;> exact .ok _
  · exact .other nofun

end Machine

/-! ## Evaluation -/

namespace QuietResult

open Clausal.Machine (Frame Leaves settle)
open Outcome

variable {α β : Type} {frame : Frame}

theorem bindRun {x : StateT Frame (Except Fault) α} {f : α → StateT Frame (Except Fault) β}
    (first : QuietResult (x frame))
    (next : Leaves (x frame) fun a frame' => QuietResult (f a frame')) :
    QuietResult ((x >>= f) frame) := by
  cases run : x frame with
  | error fault =>
      rw [run_bind_of_error run]
      exact .error (first fault run)
  | ok result =>
      rw [run_bind_of_ok run]
      exact next result.1 result.2 run

theorem pureRun (a : α) : QuietResult ((pure a : StateT Frame (Except Fault) α) frame) := .ok _

theorem settleRun {result : Except Fault α} (h : QuietResult result) :
    QuietResult ((settle result : StateT Frame (Except Fault) α) frame) := by
  cases result with
  | ok a => exact .ok _
  | error fault => exact .error (h fault rfl)

theorem liftRun {result : Except Fault α} (h : QuietResult result) :
    QuietResult ((StateT.lift result : StateT Frame (Except Fault) α) frame) := by
  cases result with
  | ok a => exact .ok _
  | error fault => exact .error (h fault rfl)

end QuietResult

namespace Machine

/-- The calls that a host makes are quiet. -/
def QuietCalls (call : (owner name : String) → List Value → Except Fault Value) : Prop :=
  ∀ owner name args, QuietResult (call owner name args)

theorem runCall_quiet {host : Host (Except Fault)} (calls : QuietCalls host.call)
    (callee : Core.Callee) (args : List Value) (frame : Frame) :
    QuietResult (runCall host callee args frame) := by
  cases callee with
  | builtin builtin => exact (applyBuiltin_quiet builtin args).settleRun
  | own name => exact (calls host.owner name args).liftRun
  | remote owner name => exact (calls owner name args).liftRun

theorem runRecordOp_quiet (host : Host (Except Fault)) (op : Core.RecordOp) (struct : String)
    (args : List Value) (frame : Frame) : QuietResult (runRecordOp host op struct args frame) := by
  unfold runRecordOp
  cases host.schemas.lookup struct with
  | some schema => exact (applyRecordOp_quiet schema struct op args).settleRun
  | none => exact .other nofun

theorem validateSlot_quiet (host : Host (Except Fault)) (slot : Core.Slot) (checker : String)
    (frame : Frame) : QuietResult (validateSlot host slot checker frame) := by
  unfold validateSlot
  cases host.registry.get? checker with
  | none => exact .other nofun
  | some valueModule =>
      refine QuietResult.bindRun (.ok _) ?_
      rintro _ _ ⟨⟩
      cases valueModule.validate ((frame.get? slot).getD .nil) with
      | ok accepted => exact .ok _
      | error diagnostic => exact .other nofun

/-- Settling a result leaves the frame alone. -/
theorem settle_frame {α : Type} {result : Except Fault α} {a : α} {frame frame' : Frame}
    (run : (settle result : StateT Frame (Except Fault) α) frame = .ok (a, frame')) :
    frame = frame' := by
  cases result with
  | ok a =>
      cases run
      rfl
  | error fault => cases run

section Runs

variable {host : Host (Except Fault)}

-- The only fault that is worded as an unset variable comes from reading one, and `ReadsSet` has
-- followed the evaluation to every place where it reads.
mutual

/-- An evaluation that reads only what is set is quiet. -/
theorem evalExpr_quiet (calls : QuietCalls host.call) (e : Core.Expr) {frame : Frame}
    (reads : ReadsSet host e frame) : QuietResult (evalExpr host e frame) := by
  cases e with
  | literal value => exact .ok _
  | var slot =>
      rcases Option.isSome_iff_exists.mp reads with ⟨value, holds⟩
      simp only [evalExpr, Lowering.readSlot_eq host holds]
      exact .ok _
  | unary op operand =>
      simp only [evalExpr]
      refine (evalExpr_quiet calls operand reads).bindRun ?_
      intro value _ _
      exact (Value.applyUnary_quiet op value).settleRun
  | binary op left right =>
      rcases reads with ⟨first, second⟩
      have before := evalExpr_quiet calls left first
      have after : Leaves (evalExpr host left frame) fun _ frame₁ =>
          QuietResult (evalExpr host right frame₁) :=
        fun a frame₁ run => evalExpr_quiet calls right (second a frame₁ run)
      cases op with
      | strict op =>
          simp only [evalExpr]
          refine before.bindRun ?_
          intro a frame₁ run
          refine (after a frame₁ run).bindRun ?_
          intro b _ _
          exact (Value.apply_quiet op a b).settleRun
      | and =>
          simp only [evalExpr]
          refine before.bindRun ?_
          intro a frame₁ run
          refine (truthOf_quiet .and a).settleRun.bindRun ?_
          intro truth frame₂ settled
          obtain rfl := settle_frame settled
          cases truth with
          | false => exact .pureRun _
          | true =>
              refine (after a frame₁ run).bindRun ?_
              intro b _ _
              exact (truthOf_quiet .and b).settleRun.bindRun fun _ _ _ => .pureRun _
      | or =>
          simp only [evalExpr]
          refine before.bindRun ?_
          intro a frame₁ run
          refine (truthOf_quiet .or a).settleRun.bindRun ?_
          intro truth frame₂ settled
          obtain rfl := settle_frame settled
          cases truth with
          | true => exact .pureRun _
          | false =>
              refine (after a frame₁ run).bindRun ?_
              intro b _ _
              exact (truthOf_quiet .or b).settleRun.bindRun fun _ _ _ => .pureRun _
  | call callee args =>
      -- A fault of the callee is passed on as it is, which is why calls have to be quiet.
      simp only [evalExpr]
      refine (evalExprs_quiet calls args reads).bindRun ?_
      intro values frame' _
      exact runCall_quiet calls callee values frame'
  | list items =>
      simp only [evalExpr]
      exact (evalExprs_quiet calls items reads).bindRun fun _ _ _ => .pureRun _
  | listTail items tail =>
      rcases reads with ⟨first, second⟩
      simp only [evalExpr]
      refine (evalExprs_quiet calls items first).bindRun ?_
      intro values frame₁ run
      refine (evalExpr_quiet calls tail (second values frame₁ run)).bindRun ?_
      intro value _ _
      refine (tailItems_quiet value).settleRun.bindRun fun _ _ _ => .pureRun _
  | tuple items =>
      simp only [evalExpr]
      exact (evalExprs_quiet calls items reads).bindRun fun _ _ _ => .pureRun _
  | map entries =>
      simp only [evalExpr]
      exact (evalEntries_quiet calls entries reads).bindRun fun _ _ _ => .pureRun _
  | field target name =>
      simp only [evalExpr]
      refine (evalExpr_quiet calls target reads).bindRun ?_
      intro value _ _
      exact (fieldOf_quiet value name).settleRun
  | cond condition thenBlock elseBlock =>
      rcases reads with ⟨first, second⟩
      simp only [evalExpr]
      refine (evalExpr_quiet calls condition first).bindRun ?_
      intro value frame₁ run
      rcases second value frame₁ run with ⟨whenTrue, whenFalse⟩
      refine (branchOf_quiet value).settleRun.bindRun ?_
      intro branch frame₂ settled
      obtain rfl := settle_frame settled
      cases branch with
      | true => exact evalBlock_quiet calls .nil thenBlock whenTrue
      | false => exact evalBlock_quiet calls .nil elseBlock whenFalse
  | record op struct args =>
      simp only [evalExpr]
      refine (evalExprs_quiet calls args reads).bindRun ?_
      intro values frame' _
      exact runRecordOp_quiet host op struct values frame'

theorem evalExprs_quiet (calls : QuietCalls host.call) (es : List Core.Expr) {frame : Frame}
    (reads : AllReadsSet host es frame) : QuietResult (evalExprs host es frame) := by
  cases es with
  | nil => exact .ok _
  | cons e es =>
      rcases reads with ⟨first, second⟩
      simp only [evalExprs]
      refine (evalExpr_quiet calls e first).bindRun ?_
      intro value frame₁ run
      exact (evalExprs_quiet calls es (second value frame₁ run)).bindRun fun _ _ _ => .pureRun _

theorem evalEntries_quiet (calls : QuietCalls host.call) (es : List (Core.Expr × Core.Expr))
    {frame : Frame} (reads : EntriesReadSet host es frame) :
    QuietResult (evalEntries host es frame) := by
  match es with
  | [] => exact .ok _
  | (k, v) :: es =>
      rcases reads with ⟨first, second⟩
      simp only [evalEntries]
      refine (evalExpr_quiet calls k first).bindRun ?_
      intro key frame₁ run
      rcases second key frame₁ run with ⟨third, fourth⟩
      refine (evalExpr_quiet calls v third).bindRun ?_
      intro value frame₂ run₂
      exact (evalEntries_quiet calls es (fourth value frame₂ run₂)).bindRun fun _ _ _ => .pureRun _

theorem evalBlock_quiet (calls : QuietCalls host.call) (last : Value) (block : List Core.Stmt)
    {frame : Frame} (reads : BlockReadsSet host block frame) :
    QuietResult (evalBlock host last block frame) := by
  match block with
  | [] => exact .ok _
  | .bind slot value :: rest =>
      rcases reads with ⟨first, second⟩
      simp only [evalBlock]
      refine (evalExpr_quiet calls value first).bindRun ?_
      intro v frame₁ run
      exact evalBlock_quiet calls v rest (second v frame₁ run)
  | .validate slot checker :: rest =>
      rcases reads with ⟨_, second⟩
      simp only [evalBlock]
      refine (validateSlot_quiet host slot checker frame).bindRun ?_
      intro v frame₁ run
      exact evalBlock_quiet calls v rest (second v frame₁ run)
  | .expr value :: rest =>
      rcases reads with ⟨first, second⟩
      simp only [evalBlock]
      refine (evalExpr_quiet calls value first).bindRun ?_
      intro v frame₁ run
      exact evalBlock_quiet calls v rest (second v frame₁ run)

end

end Runs

/-! ## Calls -/

section Calls

variable {machine : Machine} {call : (owner name : String) → List Value → Except Fault Value}

theorem fillDefaults_quiet {host : Host (Except Fault)} (calls : QuietCalls host.call)
    {params : List Core.ForwardParam}
    (reads : ∀ param ∈ params, ∀ code, param.default = some code → ReadsSet host code .empty)
    (spare : Nat) (args : List Value) : QuietResult (fillDefaults host spare params args) := by
  induction params generalizing spare args with
  | nil => exact .ok _
  | cons param params ih =>
      have later := ih fun other member => reads other (List.mem_cons_of_mem _ member)
      have here := reads param List.mem_cons_self
      simp only [fillDefaults]
      split
      next code given =>
        refine (evalExpr_quiet calls code (here code given)).bind ?_
        intro _
        exact (later 0 args).bind fun _ => .ok _
      next => exact (later _ _).bind fun _ => .ok _
      next => exact (later _ _).bind fun _ => .ok _

theorem completeArgs_quiet {host : Host (Except Fault)} {decl : Core.Declaration}
    (calls : QuietCalls host.call) (reads : ActivationReadsSet host decl) (args : List Value) :
    QuietResult (completeArgs host decl args) := by
  unfold completeArgs
  split
  · exact .other nofun
  · split
    · exact .ok _
    · exact fillDefaults_quiet calls reads.defaults _ args

/-- One activation is quiet if the calls it makes are. -/
theorem invoke_quiet (calls : QuietCalls call) {owner : String} {decl : Core.Declaration}
    (reads : ActivationReadsSet (machine.hostOf call owner decl) decl) (args : List Value) :
    QuietResult (machine.invoke (fun _ => pure ()) call owner decl args) := by
  -- Choosing an implementation never fails, so that defaults and the body are what can fault.
  rw [invoke_eq]
  refine (completeArgs_quiet calls reads args).bind ?_
  intro full
  rcases select?_spec (machine.hostOf call owner decl) full 0 decl.implementations with
    ⟨chosen, _⟩ | ⟨before, i, frame, after, split, chosen, _, entered⟩
  · rw [chosen]
    exact .other nofun
  · rw [chosen]
    have body := (reads.implementations i (by simp [split])).body full frame entered
    exact (evalBlock_quiet calls .nil i.body body).map

theorem dispatch_quiet {run : (owner : String) → Core.Declaration → List Value → Except Fault Value}
    (quiet : ∀ owner name decl args, machine.program.function? owner name = some decl →
      QuietResult (run owner decl args)) (owner name : String) (args : List Value) :
    QuietResult (machine.dispatch run owner name args) := by
  unfold dispatch
  split
  next decl found => exact quiet owner name decl args found
  next =>
    split
    next checker _ =>
      rw [settle_eq]
      exact callContract_quiet checker owner name args
    next =>
      split
      · exact .other nofun
      · exact .other nofun

theorem callWithin_quiet
    (reads : ∀ owner name decl call, machine.program.function? owner name = some decl →
      ActivationReadsSet (machine.hostOf call owner decl) decl) (remaining : Nat) :
    QuietCalls (machine.callWithin (fun _ => pure ()) remaining) := by
  induction remaining with
  | zero => exact dispatch_quiet fun _ _ _ _ _ => .other nofun
  | succ remaining ih =>
      -- The calls that an activation makes may nest one level less, and are quiet already.
      refine dispatch_quiet ?_
      intro owner name decl args found
      exact invoke_quiet ih (reads owner name decl _ found) args

end Calls

end Machine

namespace Compile

open Clausal.Lowering (sampleFile sampleFile_builds)
open Clausal.Machine (ActivationReadsSet)

/-- Compiled code never reads an unset variable.  In every declaration of a compiled file, every
slot is a place in the table of bindings, and all code finds a value in the slots it reads, whatever
it is called with and whatever the functions it calls give back.  No call ends with the fault of an
unset variable. -/
theorem variables_set_before_read {defaultModule : String} {file : Surface.SourceFile}
    {program : Core.Program} {registry : Registry} {limit : Nat} {machine : Machine}
    (compiled : compileFile defaultModule file = .ok program)
    (built : Machine.build program registry limit = .ok machine) :
    (∀ m ∈ program.modules, ∀ decl ∈ m.functions,
      (∀ slot ∈ decl.slots, slot < decl.bindings.length) ∧
        ∀ call, ActivationReadsSet (machine.hostOf call m.name decl) decl) ∧
      ∀ owner name args fault, machine.call owner name args = .error fault → ¬fault.IsUnbound := by
  rcases Machine.build_eq_ok built with ⟨rfl, _⟩
  refine ⟨?_, ?_⟩
  · intro m inProgram decl member
    have emitted := emitted_of_mem compiled inProgram member
    exact ⟨emitted.slots_lt, fun call => emitted.activationReadsSet _⟩
  · intro owner name args fault run
    have reads : ∀ owner name decl call, machine.program.function? owner name = some decl →
        ActivationReadsSet (machine.hostOf call owner decl) decl :=
      fun _ _ _ _ found => (emitted_of_function? compiled found).activationReadsSet _
    have quiet := Machine.callWithin_quiet reads machine.maxDepth owner name args
    exact (quiet fault run).not_isUnbound

theorem variables_set_before_read_sampleFile :
    ∃ program machine, compileFile "Main" sampleFile = .ok program ∧
      Machine.build program [] 16 = .ok machine ∧
      (∀ m ∈ program.modules, ∀ decl ∈ m.functions, ∀ slot ∈ decl.slots,
        slot < decl.bindings.length) ∧
      ∀ args fault, machine.call "Main" "total" args = .error fault → ¬fault.IsUnbound := by
  rcases sampleFile_builds 16 with ⟨program, machine, compiled, built⟩
  rcases variables_set_before_read compiled built with ⟨code, calls⟩
  exact ⟨program, machine, compiled, built, fun m inProgram decl member =>
    (code m inProgram decl member).1, calls "Main" "total"⟩

end Compile
end Clausal
