import Mathlib.Data.List.Forall2
import Clausal.Proofs.Lowering.Addressing
import Clausal.Proofs.Lowering.Readings

/-!
# Slots simulate names

Code with slots, run in a frame, and the tree it was lowered from, run in an environment, give the
same outcome as long as the frame holds the value of every visible name in the slot of that name.

Evaluation writes into slots that lowering had not yet given out, and no others.  `Agrees` carries
both facts: the outcomes are equal, and the slots below `n` keep their contents.  Main statements:
`AddressedExpr.agrees` for expressions, `AddressedPattern.agrees` for clause heads.
-/

namespace Clausal
namespace Lowering

open Clausal.Core (Slot)
open Clausal.Machine (Frame Host settle)
open Clausal.Meaning (Env Site)
open Outcome

variable {α β : Type} {n n' : Nat} {frame frame₁ frame₂ : Frame} {names : Names} {env : Env}

/-! ## Frames and environments -/

/-- A frame holds in the slot of every visible name what the environment holds under the name. -/
def Matches (frame : Frame) (names : Names) (env : Env) : Prop :=
  List.Forall₂ (fun entry binding => entry.1 = binding.1 ∧ frame.get? entry.2 = some binding.2)
    names env

/-- The slots below `n` are as they were. -/
def SameBelow (n : Nat) (frame frame' : Frame) : Prop :=
  ∀ slot, slot < n → frame'.get? slot = frame.get? slot

theorem SameBelow.refl (n : Nat) (frame : Frame) : SameBelow n frame frame := fun _ _ => rfl

theorem SameBelow.trans (h₁ : SameBelow n frame frame₁) (h₂ : SameBelow n frame₁ frame₂) :
    SameBelow n frame frame₂ := by
  intro slot lt
  calc frame₂.get? slot = frame₁.get? slot := h₂ slot lt
    _ = frame.get? slot := h₁ slot lt

theorem SameBelow.mono (h : SameBelow n' frame frame₁) (le : n ≤ n') : SameBelow n frame frame₁ :=
  fun slot lt => h slot (Nat.lt_of_lt_of_le lt le)

theorem SameBelow.set {slot : Slot} (le : n ≤ slot) (frame : Frame) (value : Value) :
    SameBelow n frame (frame.set slot value) :=
  fun _ lt => Frame.get?_set_of_ne frame value (Nat.ne_of_lt (Nat.lt_of_lt_of_le lt le))

theorem Matches.keep (matched : Matches frame names env) (below : Below names n)
    (same : SameBelow n frame frame₁) : Matches frame₁ names env := by
  induction matched with
  | nil => exact .nil
  | cons entry _ ih =>
      have belowRest := fun other member => below other (List.mem_cons_of_mem _ member)
      refine .cons ⟨entry.1, ?_⟩ (ih belowRest)
      rw [same _ (below _ List.mem_cons_self)]
      exact entry.2

theorem Matches.push (matched : Matches frame names env) (below : Below names n) (name : String)
    (value : Value) :
    Matches (frame.set n value) ((name, n) :: names) ((name, value) :: env) :=
  .cons ⟨rfl, Frame.get?_set_self frame n value⟩
    (matched.keep below (SameBelow.set (Nat.le_refl n) frame value))

/-- A visible name has a value, and its slot holds that value. -/
theorem Matches.lookup_some (matched : Matches frame names env) {name : String} {slot : Slot}
    (found : names.lookup name = some slot) :
    ∃ value, env.lookup name = some value ∧ frame.get? slot = some value := by
  induction matched with
  | nil => cases found
  | @cons entry binding _ _ here _ ih =>
      rcases entry with ⟨key, place⟩
      rcases binding with ⟨key', value⟩
      rcases here with ⟨rfl, holds⟩
      -- Both lists are searched for the same names in the same order.
      by_cases hit : name = key
      · subst hit
        simp only [List.lookup_cons, beq_self_eq_true, Option.some.injEq] at found
        subst found
        exact ⟨value, by simp, holds⟩
      · have miss : (name == key) = false := by simpa using hit
        simp only [List.lookup_cons, miss] at found
        rcases ih found with ⟨value', inEnv, inFrame⟩
        exact ⟨value', by simp only [List.lookup_cons, miss, inEnv], inFrame⟩

/-- A name that is not visible has no value. -/
theorem Matches.lookup_none (matched : Matches frame names env) {name : String}
    (missing : names.lookup name = none) : env.lookup name = none := by
  induction matched with
  | nil => rfl
  | @cons entry binding _ _ here _ ih =>
      rcases entry with ⟨key, place⟩
      rcases binding with ⟨key', value⟩
      rcases here with ⟨rfl, _⟩
      by_cases hit : name = key
      · subst hit
        simp at missing
      · have miss : (name == key) = false := by simpa using hit
        simp only [List.lookup_cons, miss] at missing ⊢
        exact ih missing

/-! ## Runs that agree -/

/-- A run on a frame ends as the given outcome, and keeps the slots below `n`. -/
def Agrees (n : Nat) (frame : Frame) (run : Except Fault (α × Frame)) (outcome : Except Fault α) :
    Prop :=
  match run with
  | .ok (a, frame') => outcome = .ok a ∧ SameBelow n frame frame'
  | .error fault => outcome = .error fault

theorem Agrees.outcome_eq {run : Except Fault (α × Frame)} {outcome : Except Fault α}
    (h : Agrees n frame run outcome) : run.map Prod.fst = outcome := by
  match run, h with
  | .ok (a, frame'), h => exact h.1.symm
  | .error fault, h => exact h.symm

theorem Agrees.mono {run : Except Fault (α × Frame)} {outcome : Except Fault α}
    (h : Agrees n' frame run outcome) (le : n ≤ n') : Agrees n frame run outcome := by
  match run, h with
  | .ok (a, frame'), h => exact ⟨h.1, h.2.mono le⟩
  | .error fault, h => exact h

/-- What a run keeps of a later frame it keeps of an earlier one. -/
theorem Agrees.after {run : Except Fault (α × Frame)} {outcome : Except Fault α}
    (same : SameBelow n frame frame₁) (h : Agrees n frame₁ run outcome) :
    Agrees n frame run outcome := by
  match run, h with
  | .ok (a, frame'), h => exact ⟨h.1, same.trans h.2⟩
  | .error fault, h => exact h

theorem Agrees.pure (n : Nat) (frame : Frame) (a : α) :
    Agrees n frame ((pure a : StateT Frame (Except Fault) α) frame) (.ok a) :=
  ⟨rfl, SameBelow.refl n frame⟩

theorem Agrees.bind {x : StateT Frame (Except Fault) α} {f : α → StateT Frame (Except Fault) β}
    {o : Except Fault α} {g : α → Except Fault β} (first : Agrees n frame (x frame) o)
    (next : ∀ a frame', SameBelow n frame frame' → Agrees n frame' (f a frame') (g a)) :
    Agrees n frame ((x >>= f) frame) (o >>= g) := by
  cases run : x frame with
  | error fault =>
      rw [run] at first
      rw [run_bind_of_error run, show o = .error fault from first]
      rfl
  | ok result =>
      rcases result with ⟨a, frame'⟩
      rw [run] at first
      rw [run_bind_of_ok run, first.1]
      -- What the second run keeps of its own start it also keeps of the first one's.
      exact (next a frame' first.2).after first.2

theorem Agrees.settle (n : Nat) (frame : Frame) (result : Except Fault α) :
    Agrees n frame ((settle result : StateT Frame (Except Fault) α) frame) result := by
  cases result with
  | ok a => exact ⟨rfl, SameBelow.refl n frame⟩
  | error fault => rfl

theorem Agrees.lift (n : Nat) (frame : Frame) (result : Except Fault α) :
    Agrees n frame ((StateT.lift result : StateT Frame (Except Fault) α) frame) result := by
  cases result with
  | ok a => exact ⟨rfl, SameBelow.refl n frame⟩
  | error fault => rfl

/-! ## Expressions -/

/-- What the code of a host can reach, without its bindings and schemas. -/
def siteOf (host : Host (Except Fault)) : Site :=
  { owner := host.owner, registry := host.registry, call := host.call }

/-- An empty block has the value `nil`, as the block that says so; any other block forgets the
value before it. -/
theorem evalBlock_orNil (host : Host (Except Fault)) (last : Value) (block : Core.Block)
    (frame : Frame) :
    Machine.evalBlock host last (orNil block) frame = Machine.evalBlock host .nil block frame := by
  cases block with
  | nil => rfl
  | cons stmt rest => cases stmt <;> rfl

theorem readSlot_eq (host : Host (Except Fault)) {slot : Slot} {value : Value}
    (holds : frame.get? slot = some value) :
    Machine.readSlot host slot frame = .ok (value, frame) := by
  have got : (get : StateT Frame (Except Fault) Frame) frame = .ok (frame, frame) := rfl
  unfold Machine.readSlot
  rw [Outcome.run_bind_of_ok got, holds]
  rfl

theorem readSlot_agrees (host : Host (Except Fault)) {slot : Slot} {value : Value}
    (holds : frame.get? slot = some value) :
    Agrees n frame (Machine.readSlot host slot frame) (.ok value) := by
  rw [readSlot_eq host holds]
  exact ⟨rfl, SameBelow.refl n frame⟩

/-- A callee means the same before and after lowering. -/
theorem runCall_agrees (host : Host (Except Fault)) {callee : Surface.Expr} {target : Core.Callee}
    (resolved : lowerCallee names callee = .ok target) (args : List Value) :
    Agrees n frame (Machine.runCall host target args frame)
      (Meaning.callNamed (siteOf host) callee args) := by
  cases callee with
  | ident span name =>
      -- Lowering asks for builtins before functions, and so does the meaning.
      cases visible : names.lookup name with
      | some slot => simp [lowerCallee, visible] at resolved
      | none =>
          cases builtin : Core.Builtin.ofName? name with
          | some found =>
              simp only [lowerCallee, visible, builtin, Except.ok.injEq] at resolved
              subst resolved
              simp only [Meaning.callNamed, builtin]
              exact Agrees.settle n frame _
          | none =>
              simp only [lowerCallee, visible, builtin, Except.ok.injEq] at resolved
              subst resolved
              simp only [Meaning.callNamed, builtin]
              exact Agrees.lift n frame _
  | field span path name =>
      by_cases isModule : isModulePath names path = true
      · simp only [lowerCallee, if_pos isModule, Except.ok.injEq] at resolved
        subst resolved
        exact Agrees.lift n frame _
      · simp [lowerCallee, isModule] at resolved
  | _ => simp [lowerCallee] at resolved

-- Visible names have slots below the table's length and evaluation keeps these, so that a frame
-- goes on to match the environment after each part, whatever the part wrote into later slots.
mutual

/-- An expression and its code have the same outcome. -/
theorem AddressedExpr.agrees {names : Names} {t t' : Core.Bindings} {e : Surface.Expr}
    {c : Core.Expr} (h : AddressedExpr names t e c t') (host : Host (Except Fault)) {frame : Frame}
    {env : Env} (below : Below names t.length) (matched : Matches frame names env) :
    Agrees t.length frame (Machine.evalExpr host c frame)
      (Meaning.evalExpr (siteOf host) env e) := by
  cases h with
  | integer | float | text | atom | bool | nil =>
      exact Agrees.pure _ frame _
  | ident found =>
      rcases matched.lookup_some found with ⟨value, inEnv, inFrame⟩
      simp only [Machine.evalExpr, Meaning.evalExpr, inEnv]
      exact readSlot_agrees host inFrame
  | unary operand =>
      simp only [Machine.evalExpr, Meaning.evalExpr]
      refine (operand.agrees host below matched).bind ?_
      intro value frame₁ _
      exact Agrees.settle _ frame₁ _
  | @binary _ _ _ op _ _ _ _ _ _ left right =>
      have first := left.agrees host below matched
      -- The right operand runs in the frame the left one leaves, with more slots given out.
      have second : ∀ frame₁, SameBelow t.length frame frame₁ → Agrees t.length frame₁ _ _ :=
        fun frame₁ same =>
          (right.agrees host (below.mono left.le) (matched.keep below same)).mono left.le
      cases op with
      | strict op =>
          simp only [Machine.evalExpr, Meaning.evalExpr]
          refine first.bind ?_
          intro a frame₁ same
          refine (second frame₁ same).bind ?_
          intro b frame₂ _
          exact Agrees.settle _ frame₂ _
      | and =>
          simp only [Machine.evalExpr, Meaning.evalExpr]
          refine first.bind ?_
          intro a frame₁ same
          refine (Agrees.settle _ frame₁ _).bind ?_
          intro truth frame₂ same₂
          cases truth with
          | false => exact Agrees.pure _ frame₂ _
          | true =>
              refine (second frame₂ (same.trans same₂)).bind ?_
              intro b frame₃ _
              exact (Agrees.settle _ frame₃ _).bind fun _ frame₄ _ => Agrees.pure _ frame₄ _
      | or =>
          simp only [Machine.evalExpr, Meaning.evalExpr]
          refine first.bind ?_
          intro a frame₁ same
          refine (Agrees.settle _ frame₁ _).bind ?_
          intro truth frame₂ same₂
          cases truth with
          | true => exact Agrees.pure _ frame₂ _
          | false =>
              refine (second frame₂ (same.trans same₂)).bind ?_
              intro b frame₃ _
              exact (Agrees.settle _ frame₃ _).bind fun _ frame₄ _ => Agrees.pure _ frame₄ _
  | call resolved args =>
      simp only [Machine.evalExpr, Meaning.evalExpr]
      refine (args.agrees host below matched).bind ?_
      intro values frame₁ _
      exact runCall_agrees host resolved values
  | field target =>
      simp only [Machine.evalExpr, Meaning.evalExpr]
      refine (target.agrees host below matched).bind ?_
      intro value frame₁ _
      exact Agrees.settle _ frame₁ _
  | paren single =>
      simp only [Meaning.evalExpr]
      exact single.agrees host below matched
  | list items =>
      simp only [Machine.evalExpr, Meaning.evalExpr]
      exact (items.agrees host below matched).bind fun _ frame₁ _ => Agrees.pure _ frame₁ _
  | listTail items tail =>
      simp only [Machine.evalExpr, Meaning.evalExpr]
      refine (items.agrees host below matched).bind ?_
      intro values frame₁ same
      have rest := (tail.agrees host (below.mono items.le) (matched.keep below same)).mono items.le
      refine rest.bind ?_
      intro value frame₂ _
      exact (Agrees.settle _ frame₂ _).bind fun _ frame₃ _ => Agrees.pure _ frame₃ _
  | tuple items =>
      simp only [Machine.evalExpr, Meaning.evalExpr]
      exact (items.agrees host below matched).bind fun _ frame₁ _ => Agrees.pure _ frame₁ _
  | map entries =>
      simp only [Machine.evalExpr, Meaning.evalExpr]
      exact (entries.agrees host below matched).bind fun _ frame₁ _ => Agrees.pure _ frame₁ _
  | cond condition thenBlock elseBlock =>
      simp only [Machine.evalExpr, Meaning.evalExpr]
      refine (condition.agrees host below matched).bind ?_
      intro value frame₁ same
      refine (Agrees.settle _ frame₁ _).bind ?_
      intro branch frame₂ same₂
      have matched₂ := matched.keep below (same.trans same₂)
      -- The second branch has the slots after those of the first, although only one of them runs.
      have le := (condition.grows.trans thenBlock.grows).length_le
      cases branch with
      | true =>
          simp only [if_true, evalBlock_orNil]
          exact (thenBlock.agrees host .nil (below.mono condition.le) matched₂).mono condition.le
      | false =>
          simp only [Bool.false_eq_true, if_false, evalBlock_orNil]
          exact (elseBlock.agrees host .nil (below.mono le) matched₂).mono le

theorem AddressedExprs.agrees {names : Names} {t t' : Core.Bindings} {es : List Surface.Expr}
    {cs : List Core.Expr} (h : AddressedExprs names t es cs t') (host : Host (Except Fault))
    {frame : Frame} {env : Env} (below : Below names t.length) (matched : Matches frame names env) :
    Agrees t.length frame (Machine.evalExprs host cs frame)
      (Meaning.evalExprs (siteOf host) env es) := by
  cases h with
  | nil => exact Agrees.pure _ frame _
  | cons head tail =>
      simp only [Machine.evalExprs, Meaning.evalExprs]
      refine (head.agrees host below matched).bind ?_
      intro value frame₁ same
      have rest := (tail.agrees host (below.mono head.le) (matched.keep below same)).mono head.le
      exact rest.bind fun _ frame₂ _ => Agrees.pure _ frame₂ _

theorem AddressedEntries.agrees {names : Names} {t t' : Core.Bindings}
    {es : List (Surface.Expr × Surface.Expr)} {cs : List (Core.Expr × Core.Expr)}
    (h : AddressedEntries names t es cs t') (host : Host (Except Fault)) {frame : Frame} {env : Env}
    (below : Below names t.length) (matched : Matches frame names env) :
    Agrees t.length frame (Machine.evalEntries host cs frame)
      (Meaning.evalEntries (siteOf host) env es) := by
  cases h with
  | nil => exact Agrees.pure _ frame _
  | cons key value tail =>
      simp only [Machine.evalEntries, Meaning.evalEntries]
      have le := (key.grows.trans value.grows).length_le
      refine (key.agrees host below matched).bind ?_
      intro _ frame₁ same
      have second := (value.agrees host (below.mono key.le) (matched.keep below same)).mono key.le
      refine second.bind ?_
      intro _ frame₂ same₂
      -- Key and value have run, and have set no slot that is visible here.
      have matched₂ := matched.keep below (same.trans same₂)
      have rest := (tail.agrees host (below.mono le) matched₂).mono le
      exact rest.bind fun _ frame₃ _ => Agrees.pure _ frame₃ _

theorem AddressedStmts.agrees {names : Names} {t t' : Core.Bindings} {stmts : List Surface.Stmt}
    {block : Core.Block} (h : AddressedStmts names t stmts block t') (host : Host (Except Fault))
    (last : Value) {frame : Frame} {env : Env} (below : Below names t.length)
    (matched : Matches frame names env) :
    Agrees t.length frame (Machine.evalBlock host last block frame)
      (Meaning.evalStmts (siteOf host) env last stmts) := by
  cases h with
  | nil => exact Agrees.pure _ frame _
  | @bind _ _ _ name _ _ _ block t₁ _ value rest =>
      simp only [Machine.evalBlock, Meaning.evalStmts]
      refine (value.agrees host below matched).bind ?_
      intro v frame₁ same
      -- The slot of the binding is the next one, which no visible name has.
      have below₁ := below.mono value.le
      have matched₁ := (matched.keep below same).push below₁ name v
      have set : SameBelow t.length frame₁ (frame₁.set t₁.length v) :=
        SameBelow.set value.le frame₁ v
      change Agrees t.length frame₁ (Machine.evalBlock host v block (frame₁.set t₁.length v)) _
      have inner := rest.agrees host v (by simpa using below₁.push name) matched₁
      refine (inner.mono ?_).after set
      exact Nat.le_trans value.le (by simp)
  | expr value rest =>
      simp only [Machine.evalBlock, Meaning.evalStmts]
      refine (value.agrees host below matched).bind ?_
      intro v frame₁ same
      exact (rest.agrees host v (below.mono value.le) (matched.keep below same)).mono value.le

end

/-! ## Clause heads -/

/-- A constant is matched by comparing values. -/
theorem matchPattern?_constant {e : Surface.Expr} {constant : Value}
    (isConstant : Meaning.constant? e = some constant) (value : Value) (env : Env) :
    Meaning.matchPattern? e value env = if constant.same value then some env else none := by
  cases e with
  | integer | float | text | atom | bool | nil | unary =>
      simp only [Meaning.matchPattern?, isConstant]
  | _ => cases isConstant

/-- Both matches fail, or both succeed and the frame matches the environment. -/
def AgreesMatch (names : Names) (match₁ : Option Frame) (match₂ : Option Env) : Prop :=
  Option.Rel (fun frame env => Matches frame names env) match₁ match₂

/-- Matches that agree may go on with what agrees. -/
theorem AgreesMatch.andThen {γ δ : Type} {r : γ → δ → Prop} {match₁ : Option Frame}
    {match₂ : Option Env} {f : Frame → Option γ} {g : Env → Option δ} :
    AgreesMatch names match₁ match₂ →
    (∀ frame env, Matches frame names env → Option.Rel r (f frame) (g env)) →
      Option.Rel r (match match₁ with | some frame => f frame | none => none)
        (match match₂ with | some env => g env | none => none) := by
  intro first next
  cases first with
  | some matched => exact next _ _ matched
  | none => exact .none

mutual

/-- A pattern and its code match the same values and bind the same values. -/
theorem AddressedPattern.agrees {names names' : Names} {t t' : Core.Bindings} {e : Surface.Expr}
    {p : Core.Pattern} (h : AddressedPattern names t e p names' t') (value : Value) {frame : Frame}
    {env : Env} (below : Below names t.length) (matched : Matches frame names env) :
    AgreesMatch names' (Machine.matchPattern? p value frame)
      (Meaning.matchPattern? e value env) := by
  cases h with
  | wildcard blank =>
      simp only [Machine.matchPattern?, Meaning.matchPattern?, isBlank_eq, blank, if_true]
      exact .some matched
  | same named found =>
      -- Both sides compare with the value that the name got further left in the head.
      rcases matched.lookup_some found with ⟨held, inEnv, inFrame⟩
      simp only [Machine.matchPattern?, Meaning.matchPattern?, isBlank_eq, named, inEnv, inFrame,
        Bool.false_eq_true, if_false]
      cases held.same value with
      | true => exact .some matched
      | false => exact .none
  | @bind _ _ _ name named fresh =>
      simp only [Machine.matchPattern?, Meaning.matchPattern?, isBlank_eq, named,
        matched.lookup_none fresh, Bool.false_eq_true, if_false]
      exact .some (matched.push below name value)
  | paren single =>
      simp only [Meaning.matchPattern?]
      exact single.agrees value below matched
  | tuple items =>
      cases value with
      | tuple values =>
          simp only [Machine.matchPattern?, Meaning.matchPattern?]
          exact items.agreesAll values below matched
      | _ => exact .none
  | list items =>
      cases value with
      | list values =>
          simp only [Machine.matchPattern?, Meaning.matchPattern?]
          exact items.agreesAll values below matched
      | _ => exact .none
  | listTail items tail =>
      cases value with
      | list values =>
          simp only [Machine.matchPattern?, Meaning.matchPattern?]
          have front := items.agreesFront values below matched
          -- Both fronts leave the same values for the tail, or neither matches.
          revert front
          generalize Machine.matchFront? _ values frame = found
          generalize Meaning.matchFront? _ values env = found'
          rintro (⟨sameRest, matched₁⟩ | _)
          · dsimp only
            rw [sameRest]
            exact tail.agrees _ (items.keepsBelow below) matched₁
          · exact .none
      | _ => exact .none
  | map entries =>
      simp only [Machine.matchPattern?, Meaning.matchPattern?]
      exact entries.agrees value below matched
  | literal constant =>
      rw [matchPattern?_constant (constant?_of_literal? constant)]
      simp only [Machine.matchPattern?]
      split
      · exact .some matched
      · exact .none

theorem AddressedPatterns.agreesAll {names names' : Names} {t t' : Core.Bindings}
    {es : List Surface.Expr} {ps : List Core.Pattern}
    (h : AddressedPatterns names t es ps names' t') (values : List Value) {frame : Frame}
    {env : Env} (below : Below names t.length) (matched : Matches frame names env) :
    AgreesMatch names' (Machine.matchAll? ps values frame) (Meaning.matchAll? es values env) := by
  cases h with
  | nil =>
      cases values with
      | nil => exact .some matched
      | cons value values => exact .none
  | cons head tail =>
      cases values with
      | nil => exact .none
      | cons value values =>
          simp only [Machine.matchAll?, Meaning.matchAll?]
          refine (head.agrees value below matched).andThen ?_
          intro frame₁ env₁ matched₁
          exact tail.agreesAll values (head.keepsBelow below) matched₁

theorem AddressedPatterns.agreesFront {names names' : Names} {t t' : Core.Bindings}
    {es : List Surface.Expr} {ps : List Core.Pattern}
    (h : AddressedPatterns names t es ps names' t') (values : List Value) {frame : Frame}
    {env : Env} (below : Below names t.length) (matched : Matches frame names env) :
    Option.Rel (fun found found' => found.1 = found'.1 ∧ Matches found.2 names' found'.2)
      (Machine.matchFront? ps values frame) (Meaning.matchFront? es values env) := by
  cases h with
  | nil =>
      simp only [Machine.matchFront?, Meaning.matchFront?]
      exact .some ⟨rfl, matched⟩
  | cons head tail =>
      cases values with
      | nil => exact .none
      | cons value values =>
          simp only [Machine.matchFront?, Meaning.matchFront?]
          refine (head.agrees value below matched).andThen ?_
          intro frame₁ env₁ matched₁
          exact tail.agreesFront values (head.keepsBelow below) matched₁

theorem AddressedPatternEntries.agrees {names names' : Names} {t t' : Core.Bindings}
    {es : List (Surface.Expr × Surface.Expr)} {ps : List (Core.Literal × Core.Pattern)}
    (h : AddressedPatternEntries names t es ps names' t') (value : Value) {frame : Frame}
    {env : Env} (below : Below names t.length) (matched : Matches frame names env) :
    AgreesMatch names' (Machine.matchEntries? ps value frame)
      (Meaning.matchEntries? es value env) := by
  cases h with
  | nil => exact .some matched
  | @cons _ _ _ key _ _ _ _ _ _ _ _ constant head tail =>
      simp only [Machine.matchEntries?, Meaning.matchEntries?, constant?_of_literal? constant,
        Option.bind_some]
      cases value.mapGet? key.toValue with
      | none => exact .none
      | some held =>
          refine (head.agrees held below matched).andThen ?_
          intro frame₁ env₁ matched₁
          exact tail.agrees value (head.keepsBelow below) matched₁

end

end Lowering
end Clausal
