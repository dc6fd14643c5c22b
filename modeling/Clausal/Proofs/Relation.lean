import Clausal.Machine.Basic

/-!
# Two runs of the same code

The evaluator runs in any monad with faults, and in any host.  This module says once when two of
its runs are related: a relation between computations that is respected by returning, throwing and
sequencing (`EffectRelation`) is respected by evaluation, if the two hosts reach related things, or
if the code reaches nothing (`evalExpr_rel`).  Code that reaches nothing is what `unsafeCall?` finds
no call in.  The same is said of a whole call (`invoke_rel`, `dispatch_rel`), given that the guards
of the function are related.
-/

namespace Clausal
namespace Machine

open Clausal.Core (Slot Declaration Implementation)

variable {m m' : Type → Type} [Monad m] [MonadExceptOf Fault m] [Monad m'] [MonadExceptOf Fault m']

variable (m m') in
/-- A relation between computations that the operations of the evaluator respect. -/
structure EffectRelation where
  Rel : {α : Type} → m α → m' α → Prop
  pure : ∀ {α : Type} (a : α), Rel (pure a) (pure a)
  throw : ∀ {α : Type} (fault : Fault), Rel (throw fault : m α) (throw fault : m' α)
  bind : ∀ {α β : Type} {x : m α} {y : m' α} {f : α → m β} {g : α → m' β}, Rel x y →
    (∀ a, Rel (f a) (g a)) → Rel (x >>= f) (y >>= g)

/-- Hosts that reach the same modules and whose calls are related. -/
structure EffectRelation.SameReach (R : EffectRelation m m') (host : Host m) (host' : Host m') :
    Prop where
  owner : host.owner = host'.owner
  registry : host.registry = host'.registry
  schemas : host.schemas = host'.schemas
  call : ∀ owner name args, R.Rel (host.call owner name args) (host'.call owner name args)

namespace EffectRelation

variable {α β : Type} (R : EffectRelation m m')

theorem settle (result : Except Fault α) :
    R.Rel (Machine.settle result : m α) (Machine.settle result : m' α) := by
  cases result with
  | ok a => exact R.pure a
  | error fault => exact R.throw fault

theorem pureRun (a : α) (frame : Frame) :
    R.Rel ((Pure.pure a : StateT Frame m α) frame) ((Pure.pure a : StateT Frame m' α) frame) :=
  R.pure (a, frame)

theorem throwRun (fault : Fault) (frame : Frame) :
    R.Rel ((MonadExcept.throw fault : StateT Frame m α) frame)
      ((MonadExcept.throw fault : StateT Frame m' α) frame) :=
  R.bind (R.throw fault) fun _ => R.pure _

theorem bindRun {x : StateT Frame m α} {y : StateT Frame m' α} {f : α → StateT Frame m β}
    {g : α → StateT Frame m' β} {frame : Frame} (first : R.Rel (x frame) (y frame))
    (next : ∀ a frame', R.Rel (f a frame') (g a frame')) :
    R.Rel ((x >>= f) frame) ((y >>= g) frame) :=
  R.bind first fun (a, frame') => next a frame'

theorem settleRun (result : Except Fault α) (frame : Frame) :
    R.Rel ((Machine.settle result : StateT Frame m α) frame)
      ((Machine.settle result : StateT Frame m' α) frame) := by
  cases result with
  | ok a => exact R.pureRun a frame
  | error fault => exact R.throwRun fault frame

theorem liftRun {x : m α} {y : m' α} (h : R.Rel x y) (frame : Frame) :
    R.Rel ((StateT.lift x : StateT Frame m α) frame) ((StateT.lift y : StateT Frame m' α) frame) :=
  R.bind h fun _ => R.pure _

end EffectRelation

/-! ## Evaluation -/

variable (R : EffectRelation m m') {host : Host m} {host' : Host m'}

theorem readSlot_rel (bindings : host.bindings = host'.bindings) (slot : Slot) (frame : Frame) :
    R.Rel (readSlot host slot frame) (readSlot host' slot frame) := by
  unfold readSlot
  refine R.bindRun (R.pure (frame, frame)) ?_
  intro current frame'
  cases current.get? slot with
  | some value => exact R.pureRun value frame'
  | none =>
      rw [bindings]
      exact R.throwRun _ frame'

theorem validateSlot_rel (bindings : host.bindings = host'.bindings)
    (registry : host.registry = host'.registry) (slot : Slot) (checker : String) (frame : Frame) :
    R.Rel (validateSlot host slot checker frame) (validateSlot host' slot checker frame) := by
  unfold validateSlot
  rw [registry, bindings]
  cases host'.registry.get? checker with
  | none => exact R.throwRun _ frame
  | some valueModule =>
      refine R.bindRun (R.pure (frame, frame)) ?_
      intro current frame'
      cases valueModule.validate ((current.get? slot).getD .nil) with
      | ok value => exact R.bindRun (R.pure ((), frame'.set slot value)) fun _ => R.pureRun value
      | error diagnostic => exact R.throwRun _ frame'

theorem runRecordOp_rel (schemas : host.schemas = host'.schemas) (op : Core.RecordOp)
    (struct : String) (args : List Value) (frame : Frame) :
    R.Rel (runRecordOp host op struct args frame) (runRecordOp host' op struct args frame) := by
  unfold runRecordOp
  rw [schemas]
  cases host'.schemas.lookup struct with
  | some schema => exact R.settleRun _ frame
  | none => exact R.throwRun _ frame

/-- Nothing is reached by a whole only if nothing is reached by its parts. -/
theorem reach_or {a b : Option String} {reach : Prop} (h : a.or b = none ∨ reach) :
    (a = none ∨ reach) ∧ (b = none ∨ reach) := by
  rcases h with none | reaches
  · rcases Option.or_eq_none_iff.mp none with ⟨first, second⟩
    exact ⟨.inl first, .inl second⟩
  · exact ⟨.inr reaches, .inr reaches⟩

-- One case per constructor: what a constructor evaluates is related by the induction, and what it
-- then does with the values is the same on both sides.
mutual

/-- Evaluation respects the relation in hosts that reach related things, or if it reaches none. -/
theorem evalExpr_rel (bindings : host.bindings = host'.bindings) (e : Core.Expr)
    (reach : e.unsafeCall? = none ∨ R.SameReach host host') (frame : Frame) :
    R.Rel (evalExpr host e frame) (evalExpr host' e frame) := by
  cases e with
  | literal value => exact R.pureRun _ frame
  | var slot =>
      simp only [evalExpr]
      exact readSlot_rel R bindings slot frame
  | unary op operand =>
      simp only [evalExpr]
      refine R.bindRun (evalExpr_rel bindings operand reach frame) ?_
      intro value frame₁
      exact R.settleRun _ frame₁
  | binary op left right =>
      rcases reach_or reach with ⟨reachLeft, reachRight⟩
      have before := evalExpr_rel bindings left reachLeft frame
      have after := evalExpr_rel bindings right reachRight
      cases op with
      | strict op =>
          simp only [evalExpr]
          refine R.bindRun before ?_
          intro a frame₁
          refine R.bindRun (after frame₁) ?_
          intro b frame₂
          exact R.settleRun _ frame₂
      | and =>
          simp only [evalExpr]
          refine R.bindRun before ?_
          intro a frame₁
          refine R.bindRun (R.settleRun _ frame₁) ?_
          intro truth frame₂
          cases truth with
          | false => exact R.pureRun _ frame₂
          | true =>
              refine R.bindRun (after frame₂) ?_
              intro b frame₃
              exact R.bindRun (R.settleRun _ frame₃) fun _ => R.pureRun _
      | or =>
          simp only [evalExpr]
          refine R.bindRun before ?_
          intro a frame₁
          refine R.bindRun (R.settleRun _ frame₁) ?_
          intro truth frame₂
          cases truth with
          | true => exact R.pureRun _ frame₂
          | false =>
              refine R.bindRun (after frame₂) ?_
              intro b frame₃
              exact R.bindRun (R.settleRun _ frame₃) fun _ => R.pureRun _
  | call callee args =>
      simp only [evalExpr]
      cases callee with
      | builtin builtin =>
          -- A builtin is a function of its arguments, so only these can reach anything.
          refine R.bindRun (evalExprs_rel bindings args reach frame) ?_
          intro values frame₁
          exact R.settleRun _ frame₁
      | own name =>
          -- A call of a function is itself unsafe, which leaves hosts of the same reach.
          rcases reach with ⟨⟨⟩⟩ | reaches
          refine R.bindRun (evalExprs_rel bindings args (.inr reaches) frame) ?_
          intro values frame₁
          simp only [runCall, reaches.owner]
          exact R.liftRun (reaches.call _ name values) frame₁
      | remote owner name =>
          rcases reach with ⟨⟨⟩⟩ | reaches
          refine R.bindRun (evalExprs_rel bindings args (.inr reaches) frame) ?_
          intro values frame₁
          exact R.liftRun (reaches.call owner name values) frame₁
  | list items =>
      simp only [evalExpr]
      exact R.bindRun (evalExprs_rel bindings items reach frame) fun _ => R.pureRun _
  | listTail items tail =>
      rcases reach_or reach with ⟨reachItems, reachTail⟩
      simp only [evalExpr]
      refine R.bindRun (evalExprs_rel bindings items reachItems frame) ?_
      intro values frame₁
      refine R.bindRun (evalExpr_rel bindings tail reachTail frame₁) ?_
      intro value frame₂
      exact R.bindRun (R.settleRun _ frame₂) fun _ => R.pureRun _
  | tuple items =>
      simp only [evalExpr]
      exact R.bindRun (evalExprs_rel bindings items reach frame) fun _ => R.pureRun _
  | map entries =>
      simp only [evalExpr]
      exact R.bindRun (evalEntries_rel bindings entries reach frame) fun _ => R.pureRun _
  | field target name =>
      simp only [evalExpr]
      refine R.bindRun (evalExpr_rel bindings target reach frame) ?_
      intro value frame₁
      exact R.settleRun _ frame₁
  | cond condition thenBlock elseBlock =>
      rcases reach_or reach with ⟨reachCondition, reachBlocks⟩
      rcases reach_or reachBlocks with ⟨reachThen, reachElse⟩
      simp only [evalExpr]
      refine R.bindRun (evalExpr_rel bindings condition reachCondition frame) ?_
      intro value frame₁
      refine R.bindRun (R.settleRun _ frame₁) ?_
      intro branch frame₂
      cases branch with
      | true => exact evalBlock_rel bindings .nil thenBlock reachThen frame₂
      | false => exact evalBlock_rel bindings .nil elseBlock reachElse frame₂
  | record op struct args =>
      rcases reach with ⟨⟨⟩⟩ | reaches
      simp only [evalExpr]
      refine R.bindRun (evalExprs_rel bindings args (.inr reaches) frame) ?_
      intro values frame₁
      exact runRecordOp_rel R reaches.schemas op struct values frame₁

theorem evalExprs_rel (bindings : host.bindings = host'.bindings) (es : List Core.Expr)
    (reach : Core.unsafeCallAmong? es = none ∨ R.SameReach host host') (frame : Frame) :
    R.Rel (evalExprs host es frame) (evalExprs host' es frame) := by
  cases es with
  | nil => exact R.pureRun _ frame
  | cons e es =>
      rcases reach_or reach with ⟨reachHead, reachTail⟩
      simp only [evalExprs]
      refine R.bindRun (evalExpr_rel bindings e reachHead frame) ?_
      intro value frame₁
      exact R.bindRun (evalExprs_rel bindings es reachTail frame₁) fun _ => R.pureRun _

theorem evalEntries_rel (bindings : host.bindings = host'.bindings)
    (es : List (Core.Expr × Core.Expr))
    (reach : Core.unsafeCallInEntries? es = none ∨ R.SameReach host host') (frame : Frame) :
    R.Rel (evalEntries host es frame) (evalEntries host' es frame) := by
  match es with
  | [] => exact R.pureRun _ frame
  | (k, v) :: es =>
      rcases reach_or reach with ⟨reachKey, reachRest⟩
      rcases reach_or reachRest with ⟨reachValue, reachTail⟩
      simp only [evalEntries]
      refine R.bindRun (evalExpr_rel bindings k reachKey frame) ?_
      intro key frame₁
      refine R.bindRun (evalExpr_rel bindings v reachValue frame₁) ?_
      intro value frame₂
      exact R.bindRun (evalEntries_rel bindings es reachTail frame₂) fun _ => R.pureRun _

theorem evalBlock_rel (bindings : host.bindings = host'.bindings) (last : Value)
    (block : List Core.Stmt)
    (reach : Core.unsafeCallInBlock? block = none ∨ R.SameReach host host') (frame : Frame) :
    R.Rel (evalBlock host last block frame) (evalBlock host' last block frame) := by
  match block with
  | [] => exact R.pureRun _ frame
  | .bind slot value :: rest =>
      rcases reach_or reach with ⟨reachValue, reachRest⟩
      simp only [evalBlock]
      refine R.bindRun (evalExpr_rel bindings value reachValue frame) ?_
      intro v frame₁
      refine R.bindRun (R.pure ((), frame₁.set slot v)) ?_
      intro _ frame₂
      exact evalBlock_rel bindings v rest reachRest frame₂
  | .validate slot checker :: rest =>
      rcases reach with ⟨⟨⟩⟩ | reaches
      simp only [evalBlock]
      refine R.bindRun (validateSlot_rel R bindings reaches.registry slot checker frame) ?_
      intro v frame₁
      exact evalBlock_rel bindings v rest (.inr reaches) frame₁
  | .expr value :: rest =>
      rcases reach_or reach with ⟨reachValue, reachRest⟩
      simp only [evalBlock]
      refine R.bindRun (evalExpr_rel bindings value reachValue frame) ?_
      intro v frame₁
      exact evalBlock_rel bindings v rest reachRest frame₁

end

/-! ## Calls -/

theorem fillDefaults_rel (bindings : host.bindings = host'.bindings)
    (reach : R.SameReach host host') (spare : Nat) (params : List Core.ForwardParam)
    (args : List Value) :
    R.Rel (fillDefaults host spare params args) (fillDefaults host' spare params args) := by
  induction params generalizing spare args with
  | nil => exact R.pure _
  | cons param params ih =>
      simp only [fillDefaults]
      split
      next code _ =>
        refine R.bind (evalExpr_rel R bindings code (.inr reach) .empty) ?_
        intro _
        exact R.bind (ih 0 args) fun _ => R.pure _
      next => exact R.bind (ih _ _) fun _ => R.pure _
      next => exact R.bind (ih _ _) fun _ => R.pure _

theorem completeArgs_rel (bindings : host.bindings = host'.bindings)
    (reach : R.SameReach host host') (decl : Declaration) (args : List Value) :
    R.Rel (completeArgs host decl args) (completeArgs host' decl args) := by
  unfold completeArgs
  rw [reach.owner]
  split
  · exact R.throw _
  · split
    · exact R.pure _
    · exact fillDefaults_rel R bindings reach _ _ args

/-- The guards of some implementations are related. -/
def EffectRelation.GuardsRelated (R : EffectRelation m m') (host : Host m) (host' : Host m')
    (implementations : List Implementation) : Prop :=
  ∀ i ∈ implementations, ∀ guard, i.guard = some guard →
    ∀ frame, R.Rel (evalGuard host guard frame) (evalGuard host' guard frame)

theorem admit?_rel {i : Implementation}
    (guards : ∀ guard, i.guard = some guard →
      ∀ frame, R.Rel (evalGuard host guard frame) (evalGuard host' guard frame))
    (args : List Value) : R.Rel (admit? host i args) (admit? host' i args) := by
  unfold admit?
  cases matchAll? i.patterns args .empty with
  | none => exact R.pure _
  | some frame =>
      cases given : i.guard with
      | none => exact R.pure _
      | some guard =>
          refine R.bind (guards guard given frame) ?_
          intro _
          exact R.pure _

theorem select?_rel {implementations : List Implementation}
    (guards : R.GuardsRelated host host' implementations) (args : List Value) (index : Nat) :
    R.Rel (select? host args index implementations) (select? host' args index implementations) := by
  induction implementations generalizing index with
  | nil => exact R.pure _
  | cons i rest ih =>
      have later : R.GuardsRelated host host' rest := by
        intro j member
        exact guards j (List.mem_cons_of_mem _ member)
      simp only [select?]
      refine R.bind (admit?_rel R (guards i List.mem_cons_self) args) ?_
      intro found
      cases found with
      | some frame => exact R.pure _
      | none => exact ih later (index + 1)

variable {machine machine' : Machine}

/-- One activation respects the relation if its guards and the calls it makes do. -/
theorem invoke_rel {notify : Dispatch → m Unit} {notify' : Dispatch → m' Unit}
    {call : (owner name : String) → List Value → m Value}
    {call' : (owner name : String) → List Value → m' Value} {owner : String} {decl : Declaration}
    (notified : ∀ dispatch, R.Rel (notify dispatch) (notify' dispatch))
    (reach : R.SameReach (machine.hostOf call owner decl) (machine'.hostOf call' owner decl))
    (guards : R.GuardsRelated (machine.hostOf call owner decl) (machine'.hostOf call' owner decl)
      decl.implementations) (args : List Value) :
    R.Rel (machine.invoke notify call owner decl args)
      (machine'.invoke notify' call' owner decl args) := by
  unfold invoke
  refine R.bind (completeArgs_rel R rfl reach decl args) ?_
  intro full
  refine R.bind (select?_rel R guards full 0) ?_
  intro found
  match found with
  | none => exact R.throw _
  | some (index, i, frame) =>
      refine R.bind (notified _) ?_
      intro _
      exact R.bind (evalBlock_rel R rfl .nil i.body (.inr reach) frame) fun _ => R.pure _

/-- A call goes to the same place on machines with the same program and modules. -/
theorem dispatch_rel (program : machine.program = machine'.program)
    (registry : machine.registry = machine'.registry)
    {run : (owner : String) → Declaration → List Value → m Value}
    {run' : (owner : String) → Declaration → List Value → m' Value} {owner name : String}
    {args : List Value}
    (related : ∀ decl, machine.program.function? owner name = some decl →
      R.Rel (run owner decl args) (run' owner decl args)) :
    R.Rel (machine.dispatch run owner name args) (machine'.dispatch run' owner name args) := by
  unfold dispatch
  rw [← program, ← registry]
  cases found : machine.program.function? owner name with
  | some decl => exact related decl found
  | none =>
      cases machine.registry.get? owner with
      | some checker => exact R.settle _
      | none =>
          dsimp only
          split
          · exact R.throw _
          · exact R.throw _

end Machine
end Clausal
