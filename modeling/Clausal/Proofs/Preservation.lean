import Clausal.Proofs.Hereditary
import Clausal.Proofs.Invocation

/-!
# Properties of values that execution keeps

Evaluation takes values apart and puts lists, tuples and maps together, so it keeps every hereditary
property of values.  Records are made by value modules and record operations alone, which `KeepsInside`
asks about.

Main statement: if value modules and record operations keep a hereditary property, then a call of
arguments with the property gives a value with the property (`callWithin_delivers`).
-/

namespace Clausal
namespace Machine

open Clausal.Core (Declaration ForwardParam Implementation Pattern Slot)
open Outcome

/-! ## Frames and matching -/

/-- Everything in a frame has a property. -/
def Frame.Holds (P : Value → Prop) (frame : Frame) : Prop := ∀ entry ∈ frame, P entry.2

section Matching

variable {P : Value → Prop}

theorem Frame.Holds.empty : Frame.Holds P .empty := fun _ member => nomatch member

theorem Frame.Holds.set {frame : Frame} {value : Value} (held : frame.Holds P) (slot : Slot)
    (heldValue : P value) : (frame.set slot value).Holds P :=
  List.forall_mem_cons.mpr ⟨heldValue, held⟩

theorem Frame.Holds.get? {frame : Frame} {slot : Slot} {value : Value} (held : frame.Holds P)
    (got : frame.get? slot = some value) : P value := by
  induction frame with
  | nil => cases got
  | cons entry rest ih =>
      rcases entry with ⟨key, stored⟩
      have parts := List.forall_mem_cons.mp held
      unfold Frame.get? at got
      rw [List.lookup_cons] at got
      split at got
      · cases got
        exact parts.1
      · exact ih parts.2 got

mutual

/-- What a pattern binds has the property that the matched value has. -/
theorem matchPattern?_holds (h : Hereditary P) (pattern : Pattern) {value : Value}
    {frame frame' : Frame} (heldValue : P value) (held : frame.Holds P)
    (matched : matchPattern? pattern value frame = some frame') : frame'.Holds P := by
  -- What a pattern binds is the value or a part of it.
  cases pattern with
  | wildcard =>
      cases matched
      exact held
  | bind slot =>
      cases matched
      exact held.set slot heldValue
  | same slot =>
      simp only [matchPattern?] at matched
      split at matched
      · split at matched
        · cases matched
          exact held
        · cases matched
      · cases matched
  | literal l =>
      simp only [matchPattern?] at matched
      split at matched
      · cases matched
        exact held
      · cases matched
  | tuple items =>
      cases value with
      | tuple values =>
          simp only [matchPattern?] at matched
          exact matchAll?_holds h items (h.tuple.mp heldValue) held matched
      | _ => simp [matchPattern?] at matched
  | list items =>
      cases value with
      | list values =>
          simp only [matchPattern?] at matched
          exact matchAll?_holds h items (h.list.mp heldValue) held matched
      | _ => simp [matchPattern?] at matched
  | listTail items tail =>
      cases value with
      | list values =>
          simp only [matchPattern?] at matched
          split at matched
          next rest frame₁ front =>
            rcases matchFront?_holds h items (h.list.mp heldValue) held front with ⟨left, held₁⟩
            exact matchPattern?_holds h tail (h.list.mpr left) held₁ matched
          next => cases matched
      | _ => simp [matchPattern?] at matched
  | map entries =>
      simp only [matchPattern?] at matched
      exact matchEntries?_holds h entries heldValue held matched

theorem matchAll?_holds (h : Hereditary P) (patterns : List Pattern) {values : List Value}
    {frame frame' : Frame} (heldValues : ∀ v ∈ values, P v) (held : frame.Holds P)
    (matched : matchAll? patterns values frame = some frame') : frame'.Holds P := by
  match patterns, values with
  | [], [] =>
      cases matched
      exact held
  | p :: ps, v :: vs =>
      rw [List.forall_mem_cons] at heldValues
      simp only [matchAll?] at matched
      split at matched
      next frame₁ first =>
        have held₁ := matchPattern?_holds h p heldValues.1 held first
        exact matchAll?_holds h ps heldValues.2 held₁ matched
      next => cases matched
  | [], _ :: _ => cases matched
  | _ :: _, [] => cases matched

theorem matchFront?_holds (h : Hereditary P) (patterns : List Pattern) {values rest : List Value}
    {frame frame' : Frame} (heldValues : ∀ v ∈ values, P v) (held : frame.Holds P)
    (matched : matchFront? patterns values frame = some (rest, frame')) :
    (∀ v ∈ rest, P v) ∧ frame'.Holds P := by
  match patterns, values with
  | [], values =>
      cases matched
      exact ⟨heldValues, held⟩
  | p :: ps, v :: vs =>
      rw [List.forall_mem_cons] at heldValues
      simp only [matchFront?] at matched
      split at matched
      next frame₁ first =>
        have held₁ := matchPattern?_holds h p heldValues.1 held first
        exact matchFront?_holds h ps heldValues.2 held₁ matched
      next => cases matched
  | _ :: _, [] => cases matched

theorem matchEntries?_holds (h : Hereditary P) (entries : List (Core.Literal × Pattern))
    {value : Value} {frame frame' : Frame} (heldValue : P value) (held : frame.Holds P)
    (matched : matchEntries? entries value frame = some frame') : frame'.Holds P := by
  match entries with
  | [] =>
      cases matched
      exact held
  | (key, p) :: rest =>
      simp only [matchEntries?] at matched
      split at matched
      next found got =>
        split at matched
        next frame₁ first =>
          have held₁ := matchPattern?_holds h p (h.mapGet heldValue got) held first
          exact matchEntries?_holds h rest heldValue held₁ matched
        next => cases matched
      next => cases matched

end

end Matching

/-! ## Evaluation -/

/-- A step that runs in frames with a property and leaves such a frame; what it gives satisfies
`Q`. -/
def Keeps {α : Type} (P : Value → Prop) (Q : α → Prop) (x : StateT Frame (Except Fault) α) : Prop :=
  ∀ frame, frame.Holds P → Delivers (fun result => Q result.1 ∧ result.2.Holds P) (x frame)

namespace Keeps

variable {α β : Type} {P : Value → Prop} {Q : α → Prop} {R : β → Prop}

theorem pure {a : α} (held : Q a) : Keeps P Q (Pure.pure a) :=
  fun _ heldFrame => .ok ⟨held, heldFrame⟩

theorem throw (fault : Fault) : Keeps P Q (MonadExcept.throw fault) := fun _ _ => .error fault

theorem bind {x : StateT Frame (Except Fault) α} {f : α → StateT Frame (Except Fault) β}
    (first : Keeps P Q x) (next : ∀ a, Q a → Keeps P R (f a)) : Keeps P R (x >>= f) := by
  intro frame heldFrame
  refine (first frame heldFrame).bind ?_
  rintro ⟨a, frame₁⟩ ⟨held, heldFrame₁⟩
  exact next a held frame₁ heldFrame₁

theorem lift {result : Except Fault α} (held : Delivers Q result) :
    Keeps P Q (StateT.lift result) := by
  intro frame heldFrame
  refine held.bind ?_
  intro a heldA
  exact .ok ⟨heldA, heldFrame⟩

theorem get : Keeps P (fun frame => frame.Holds P) MonadState.get :=
  fun _ heldFrame => .ok ⟨heldFrame, heldFrame⟩

theorem modify {change : Frame → Frame} (kept : ∀ frame, frame.Holds P → (change frame).Holds P) :
    Keeps P (fun _ => True) (modify change : StateT Frame (Except Fault) PUnit) :=
  fun frame heldFrame => .ok ⟨trivial, kept frame heldFrame⟩

theorem settle {result : Except Fault α} (held : Delivers Q result) :
    Keeps P Q (Machine.settle result) := by
  cases result with
  | ok a => exact .pure (held a rfl)
  | error fault => exact .throw fault

end Keeps

/-- Value modules, record operations and calls of a host keep a property. -/
structure KeepsInside (P : Value → Prop) (host : Host (Except Fault)) : Prop where
  validate {checker : String} {valueModule : ValueModule} {value : Value} :
    host.registry.get? checker = some valueModule → P value → Delivers P (valueModule.validate value)
  record {struct : String} {schema : RecordSchema} {op : Core.RecordOp} {args : List Value} :
    host.schemas.lookup struct = some schema → (∀ arg ∈ args, P arg) →
      Delivers P (applyRecordOp schema struct op args)
  call {owner name : String} {args : List Value} :
    (∀ arg ∈ args, P arg) → Delivers P (host.call owner name args)

section Evaluation

variable {P : Value → Prop} {host : Host (Except Fault)}

theorem readSlot_keeps (slot : Slot) : Keeps P P (readSlot host slot) := by
  unfold readSlot
  refine Keeps.get.bind ?_
  intro frame held
  cases got : frame.get? slot with
  | none => exact .throw _
  | some value => exact .pure (held.get? got)

/-- The frame keeps the property because the new value of the slot comes from a module. -/
theorem validateSlot_keeps (h : Hereditary P) (inside : KeepsInside P host) (slot : Slot)
    (checker : String) : Keeps P P (validateSlot host slot checker) := by
  unfold validateSlot
  cases registered : host.registry.get? checker with
  | none => exact .throw _
  | some valueModule =>
      refine Keeps.get.bind ?_
      intro frame held
      -- A slot that is not set counts as `nil`.
      have raw : P ((frame.get? slot).getD .nil) := by
        cases got : frame.get? slot with
        | none => exact h.nil
        | some value => exact held.get? got
      have accepted := inside.validate registered raw
      cases outcome : valueModule.validate ((frame.get? slot).getD .nil) with
      | error diagnostic =>
          simp only [outcome]
          exact .throw _
      | ok value =>
          have heldValue : P value := accepted value outcome
          simp only [outcome]
          refine (Keeps.modify fun frame heldFrame => heldFrame.set slot heldValue).bind ?_
          intro _ _
          exact .pure heldValue

theorem runRecordOp_keeps (inside : KeepsInside P host) (op : Core.RecordOp) (struct : String)
    {args : List Value} (held : ∀ arg ∈ args, P arg) :
    Keeps P P (runRecordOp host op struct args) := by
  unfold runRecordOp
  cases found : host.schemas.lookup struct with
  | none => exact .throw _
  | some schema => exact .settle (inside.record found held)

theorem runCall_keeps (h : Hereditary P) (inside : KeepsInside P host) (callee : Core.Callee)
    {args : List Value} (held : ∀ arg ∈ args, P arg) :
    Keeps P P (runCall host callee args) := by
  cases callee with
  | builtin builtin => exact .settle (h.applyBuiltin builtin held)
  | own name => exact .lift (inside.call held)
  | remote owner name => exact .lift (inside.call held)

mutual

theorem evalExpr_keeps (h : Hereditary P) (inside : KeepsInside P host) (e : Core.Expr) :
    Keeps P P (evalExpr host e) := by
  cases e with
  | literal value =>
      simp only [evalExpr]
      exact .pure (h.literal value)
  | var slot =>
      simp only [evalExpr]
      exact readSlot_keeps slot
  | unary op operand =>
      simp only [evalExpr]
      refine (evalExpr_keeps h inside operand).bind ?_
      intro value _
      exact .settle (h.applyUnary op value)
  | binary op left right =>
      have first := evalExpr_keeps h inside left
      have second := evalExpr_keeps h inside right
      -- The logical operators give truth values, whatever their operands are.
      have truth (op : BinaryOp) (v : Value) :
          Keeps P (fun _ => True) (settle (truthOf op v) : StateT Frame (Except Fault) Bool) :=
        .settle fun _ _ => trivial
      cases op with
      | strict op =>
          simp only [evalExpr]
          refine first.bind ?_
          intro a _
          refine second.bind ?_
          intro b _
          exact .settle (h.apply op a b)
      | and =>
          simp only [evalExpr]
          refine first.bind ?_
          intro a _
          refine (truth .and a).bind ?_
          intro held _
          cases held with
          | false => exact .pure (h.bool false)
          | true =>
              refine second.bind ?_
              intro b _
              exact (truth .and b).bind fun _ _ => .pure (h.bool _)
      | or =>
          simp only [evalExpr]
          refine first.bind ?_
          intro a _
          refine (truth .or a).bind ?_
          intro held _
          cases held with
          | true => exact .pure (h.bool true)
          | false =>
              refine second.bind ?_
              intro b _
              exact (truth .or b).bind fun _ _ => .pure (h.bool _)
  | call callee args =>
      simp only [evalExpr]
      refine (evalExprs_keeps h inside args).bind ?_
      intro values held
      exact runCall_keeps h inside callee held
  | list items =>
      simp only [evalExpr]
      refine (evalExprs_keeps h inside items).bind ?_
      intro values held
      exact .pure (h.list.mpr held)
  | listTail items tail =>
      simp only [evalExpr]
      refine (evalExprs_keeps h inside items).bind ?_
      intro values held
      refine (evalExpr_keeps h inside tail).bind ?_
      intro last heldLast
      refine (Keeps.settle (h.tailItems heldLast)).bind ?_
      intro rest heldRest
      exact .pure (h.list.mpr (List.forall_mem_append.mpr ⟨held, heldRest⟩))
  | tuple items =>
      simp only [evalExpr]
      refine (evalExprs_keeps h inside items).bind ?_
      intro values held
      exact .pure (h.tuple.mpr held)
  | map entries =>
      simp only [evalExpr]
      refine (evalEntries_keeps h inside entries).bind ?_
      intro found held
      exact .pure (h.ofEntries held)
  | field target name =>
      simp only [evalExpr]
      refine (evalExpr_keeps h inside target).bind ?_
      intro value held
      exact .settle (h.fieldOf name held)
  | cond condition yes no =>
      simp only [evalExpr]
      refine (evalExpr_keeps h inside condition).bind ?_
      intro value _
      have taken : Keeps P (fun _ => True)
          (settle (branchOf value) : StateT Frame (Except Fault) Bool) := .settle fun _ _ => trivial
      refine taken.bind ?_
      intro branch _
      cases branch with
      | true => exact evalBlock_keeps h inside h.nil yes
      | false => exact evalBlock_keeps h inside h.nil no
  | record op struct args =>
      simp only [evalExpr]
      refine (evalExprs_keeps h inside args).bind ?_
      intro values held
      exact runRecordOp_keeps inside op struct held

theorem evalExprs_keeps (h : Hereditary P) (inside : KeepsInside P host) (es : List Core.Expr) :
    Keeps P (fun values => ∀ v ∈ values, P v) (evalExprs host es) := by
  cases es with
  | nil =>
      simp only [evalExprs]
      exact .pure fun _ member => nomatch member
  | cons e es =>
      simp only [evalExprs]
      refine (evalExpr_keeps h inside e).bind ?_
      intro v held
      refine (evalExprs_keeps h inside es).bind ?_
      intro vs heldRest
      exact .pure (List.forall_mem_cons.mpr ⟨held, heldRest⟩)

theorem evalEntries_keeps (h : Hereditary P) (inside : KeepsInside P host)
    (es : List (Core.Expr × Core.Expr)) :
    Keeps P (fun entries => ∀ entry ∈ entries, P entry.1 ∧ P entry.2) (evalEntries host es) := by
  match es with
  | [] =>
      simp only [evalEntries]
      exact .pure fun _ member => nomatch member
  | (k, v) :: es =>
      simp only [evalEntries]
      refine (evalExpr_keeps h inside k).bind ?_
      intro key heldKey
      refine (evalExpr_keeps h inside v).bind ?_
      intro value heldValue
      refine (evalEntries_keeps h inside es).bind ?_
      intro rest heldRest
      exact .pure (List.forall_mem_cons.mpr ⟨⟨heldKey, heldValue⟩, heldRest⟩)

theorem evalBlock_keeps (h : Hereditary P) (inside : KeepsInside P host) {last : Value}
    (heldLast : P last) (block : List Core.Stmt) : Keeps P P (evalBlock host last block) := by
  match block with
  | [] =>
      simp only [evalBlock]
      exact .pure heldLast
  | .bind slot e :: rest =>
      simp only [evalBlock]
      refine (evalExpr_keeps h inside e).bind ?_
      intro value held
      refine (Keeps.modify fun frame heldFrame => heldFrame.set slot held).bind ?_
      intro _ _
      exact evalBlock_keeps h inside held rest
  | .validate slot checker :: rest =>
      simp only [evalBlock]
      refine (validateSlot_keeps h inside slot checker).bind ?_
      intro value held
      exact evalBlock_keeps h inside held rest
  | .expr e :: rest =>
      simp only [evalBlock]
      refine (evalExpr_keeps h inside e).bind ?_
      intro value held
      exact evalBlock_keeps h inside held rest

end

/-! ## Calls -/

theorem fillDefaults_delivers (h : Hereditary P) (inside : KeepsInside P host) (spare : Nat)
    (params : List ForwardParam) {args : List Value} (held : ∀ arg ∈ args, P arg) :
    Delivers (fun full => ∀ arg ∈ full, P arg) (fillDefaults host spare params args) := by
  induction params generalizing spare args with
  | nil => exact .ok fun _ member => nomatch member
  | cons param params ih =>
      -- A parameter that gets an argument takes the first one that is left.
      have taken (spare : Nat) : Delivers (fun full => ∀ arg ∈ full, P arg)
          (do return args.take 1 ++ (← fillDefaults host spare params (args.drop 1))) := by
        have heldLeft : ∀ arg ∈ args.drop 1, P arg := fun arg member =>
          held arg (List.mem_of_mem_drop member)
        refine (ih spare heldLeft).bind ?_
        intro rest heldRest
        refine .ok (List.forall_mem_append.mpr ⟨?_, heldRest⟩)
        exact fun arg member => held arg (List.mem_of_mem_take member)
      simp only [fillDefaults]
      cases param.default with
      | none => exact taken spare
      | some code =>
          cases spare with
          | succ spare => exact taken spare
          | zero =>
              refine (evalExpr_keeps h inside code .empty .empty).bind ?_
              rintro ⟨value, _⟩ ⟨heldValue, _⟩
              refine (ih 0 held).bind ?_
              intro rest heldRest
              exact .ok (List.forall_mem_cons.mpr ⟨heldValue, heldRest⟩)

theorem completeArgs_delivers (h : Hereditary P) (inside : KeepsInside P host)
    (decl : Declaration) {args : List Value} (held : ∀ arg ∈ args, P arg) :
    Delivers (fun full => ∀ arg ∈ full, P arg) (completeArgs host decl args) := by
  unfold completeArgs
  split
  · exact .error _
  · split
    · exact .ok held
    · exact fillDefaults_delivers h inside _ _ held

theorem admit?_delivers (h : Hereditary P) (inside : KeepsInside P host) (i : Implementation)
    {args : List Value} (held : ∀ arg ∈ args, P arg) :
    Delivers (fun admitted => ∀ frame, admitted = some frame → frame.Holds P)
      (admit? host i args) := by
  cases matched : matchAll? i.patterns args .empty with
  | none =>
      rw [admit?_of_mismatch matched]
      exact .ok nofun
  | some frame =>
      have bound : frame.Holds P := matchAll?_holds h i.patterns held .empty matched
      cases guarded : i.guard with
      | none =>
          rw [admit?_of_unguarded matched guarded]
          exact .ok fun _ same => Option.some.inj same ▸ bound
      | some guard =>
          cases run : evalExpr host guard frame with
          | error fault =>
              rw [admit?_of_guard_error matched guarded run]
              exact .ok nofun
          | ok result =>
              rcases result with ⟨value, frame₁⟩
              -- The body starts from the frame that the guard has left.
              have heldFrame := (evalExpr_keeps h inside guard frame bound _ run).2
              rw [admit?_of_guard_ok matched guarded run]
              cases isTrue value with
              | false => exact .ok nofun
              | true => exact .ok fun _ same => Option.some.inj same ▸ heldFrame

theorem select?_delivers (h : Hereditary P) (inside : KeepsInside P host) {args : List Value}
    (held : ∀ arg ∈ args, P arg) (index : Nat) (implementations : List Implementation) :
    Delivers (fun choice => ∀ place i frame, choice = some (place, i, frame) → frame.Holds P)
      (select? host args index implementations) := by
  induction implementations generalizing index with
  | nil => exact .ok nofun
  | cons i rest ih =>
      simp only [select?]
      refine (admit?_delivers h inside i held).bind ?_
      intro admitted heldFrame
      cases admitted with
      | none => exact ih (index + 1)
      | some frame =>
          refine .ok ?_
          rintro _ _ _ ⟨⟩
          exact heldFrame frame rfl

end Evaluation

section Calls

variable {P : Value → Prop} {machine : Machine}

theorem invoke_delivers (h : Hereditary P)
    {call : (owner name : String) → List Value → Except Fault Value} {owner : String}
    {decl : Declaration} (inside : KeepsInside P (machine.hostOf call owner decl))
    {args : List Value} (held : ∀ arg ∈ args, P arg) :
    Delivers P (machine.invoke (fun _ => pure ()) call owner decl args) := by
  rw [invoke_eq]
  refine (completeArgs_delivers h inside decl held).bind ?_
  intro full heldFull
  refine (select?_delivers h inside heldFull 0 _).bind ?_
  intro choice heldFrame
  match choice with
  | none => exact .error _
  | some (index, i, frame) =>
      have body := evalBlock_keeps h inside h.nil i.body frame (heldFrame index i frame rfl)
      exact body.map fun result kept => kept.1

/-- The operations of a value module keep a property that its two functions keep. -/
theorem callContract_delivers (h : Hereditary P) {checker : ValueModule} {owner name : String}
    {args : List Value} (held : ∀ arg ∈ args, P arg)
    (validate : ∀ value, P value → Delivers P (checker.validate value))
    (default : Delivers P checker.default) :
    Delivers P (callContract checker owner name args) := by
  unfold callContract
  split
  next value =>
    have accepted := validate value (held value (by simp))
    cases outcome : checker.validate value with
    | ok v => exact .ok (h.okTuple (accepted v outcome))
    | error diagnostic => exact .ok (h.errorTuple (h.text _))
  next =>
    cases outcome : checker.default with
    | ok v => exact .ok (default v outcome)
    | error diagnostic => exact .ok (h.errorTuple (h.text _))
  next => exact .error _

/-- The value modules and the schemas of a machine keep a property. -/
structure KeepsBuilt (P : Value → Prop) (machine : Machine) : Prop where
  validate {checker : String} {valueModule : ValueModule} {value : Value} :
    machine.registry.get? checker = some valueModule → P value →
      Delivers P (valueModule.validate value)
  default {checker : String} {valueModule : ValueModule} :
    machine.registry.get? checker = some valueModule → Delivers P valueModule.default
  record {struct : String} {schema : RecordSchema} {op : Core.RecordOp} {args : List Value} :
    machine.schemas.lookup struct = some schema → (∀ arg ∈ args, P arg) →
      Delivers P (applyRecordOp schema struct op args)

theorem dispatch_delivers (h : Hereditary P) (built : KeepsBuilt P machine)
    {run : (owner : String) → Declaration → List Value → Except Fault Value}
    {args : List Value} (held : ∀ arg ∈ args, P arg)
    (ran : ∀ owner decl, Delivers P (run owner decl args)) (owner name : String) :
    Delivers P (machine.dispatch run owner name args) := by
  unfold dispatch
  cases machine.program.function? owner name with
  | some decl => exact ran owner decl
  | none =>
      cases registered : machine.registry.get? owner with
      | some checker =>
          change Delivers P (settle (callContract checker owner name args) : Except Fault Value)
          rw [settle_eq]
          exact callContract_delivers h held (fun _ => built.validate registered)
            (built.default registered)
      | none =>
          dsimp only
          split
          · exact .error _
          · exact .error _

/-- What value modules and record operations keep, calls keep. -/
theorem callWithin_delivers (h : Hereditary P) (built : KeepsBuilt P machine) (remaining : Nat)
    (owner name : String) {args : List Value} (held : ∀ arg ∈ args, P arg) :
    Delivers P (machine.callWithin (fun _ => pure ()) remaining owner name args :
      Except Fault Value) := by
  induction remaining generalizing owner name args with
  | zero =>
      refine dispatch_delivers h built held ?_ owner name
      intro owner decl
      exact .error (Fault.stackOverflow machine.maxDepth)
  | succ remaining ih =>
      refine dispatch_delivers h built held ?_ owner name
      intro owner decl
      -- The calls on the way have less depth left.
      have inside : KeepsInside P
          (machine.hostOf (machine.callWithin (fun _ => pure ()) remaining) owner decl) :=
        ⟨built.validate, built.record, ih _ _⟩
      exact invoke_delivers h inside held

end Calls

end Machine
end Clausal
