import Clausal.Proofs.Lowering.Activation
import Clausal.Proofs.Slots

/-!
# Variables are set before they are read

`ReadsSet host e frame` says that evaluating `e` in `frame` finds a value in every slot it reads.
It follows the evaluator form by form: what is evaluated later is judged in the frame that the
earlier parts have left.  It asks more than a run needs, since it also judges the operand that a
logical operator skips and the branch that a condition does not take.  `MatchReadsSet` does the
same for clause heads, and `ActivationReadsSet` for all code of a declaration.

Main statement: all code that the compiler emits reads only what is set
(`Emitted.activationReadsSet`).
-/

namespace Clausal
namespace Machine

open Clausal.Core (Slot Pattern Declaration Implementation)

/-- What holds of the value and the frame that a run leaves, if it leaves any. -/
def Leaves {α : Type} (run : Except Fault (α × Frame)) (next : α → Frame → Prop) : Prop :=
  ∀ a frame, run = .ok (a, frame) → next a frame

/-! ## Evaluation -/

mutual

def ReadsSet (host : Host (Except Fault)) : Core.Expr → Frame → Prop
  | .literal _, _ => True
  | .var slot, frame => (frame.get? slot).isSome
  | .unary _ operand, frame => ReadsSet host operand frame
  | .binary _ left right, frame =>
      ReadsSet host left frame ∧
        Leaves (evalExpr host left frame) fun _ frame => ReadsSet host right frame
  | .call _ args, frame => AllReadsSet host args frame
  | .list items, frame => AllReadsSet host items frame
  | .listTail items tail, frame =>
      AllReadsSet host items frame ∧
        Leaves (evalExprs host items frame) fun _ frame => ReadsSet host tail frame
  | .tuple items, frame => AllReadsSet host items frame
  | .map entries, frame => EntriesReadSet host entries frame
  | .field target _, frame => ReadsSet host target frame
  | .cond condition thenBlock elseBlock, frame =>
      ReadsSet host condition frame ∧
        Leaves (evalExpr host condition frame) fun _ frame =>
          BlockReadsSet host thenBlock frame ∧ BlockReadsSet host elseBlock frame
  | .record _ _ args, frame => AllReadsSet host args frame

def AllReadsSet (host : Host (Except Fault)) : List Core.Expr → Frame → Prop
  | [], _ => True
  | e :: es, frame =>
      ReadsSet host e frame ∧
        Leaves (evalExpr host e frame) fun _ frame => AllReadsSet host es frame

def EntriesReadSet (host : Host (Except Fault)) : List (Core.Expr × Core.Expr) → Frame → Prop
  | [], _ => True
  | (k, v) :: rest, frame =>
      ReadsSet host k frame ∧
        Leaves (evalExpr host k frame) fun _ frame =>
          ReadsSet host v frame ∧
            Leaves (evalExpr host v frame) fun _ frame => EntriesReadSet host rest frame

def BlockReadsSet (host : Host (Except Fault)) : List Core.Stmt → Frame → Prop
  | [], _ => True
  | .bind slot value :: rest, frame =>
      ReadsSet host value frame ∧
        Leaves (evalExpr host value frame) fun v frame =>
          BlockReadsSet host rest (frame.set slot v)
  | .validate slot checker :: rest, frame =>
      (frame.get? slot).isSome ∧
        Leaves (validateSlot host slot checker frame) fun _ frame => BlockReadsSet host rest frame
  | .expr value :: rest, frame =>
      ReadsSet host value frame ∧
        Leaves (evalExpr host value frame) fun _ frame => BlockReadsSet host rest frame

end

/-! ## Matching -/

mutual

def MatchReadsSet : Pattern → Value → Frame → Prop
  | .same slot, _, frame => (frame.get? slot).isSome
  | .tuple items, .tuple values, frame => MatchAllReadsSet items values frame
  | .list items, .list values, frame => MatchAllReadsSet items values frame
  | .listTail items tail, .list values, frame =>
      MatchFrontReadsSet items values frame ∧
        ∀ rest frame', matchFront? items values frame = some (rest, frame') →
          MatchReadsSet tail (.list rest) frame'
  | .map entries, value, frame => MatchEntriesReadSet entries value frame
  | _, _, _ => True

def MatchAllReadsSet : List Pattern → List Value → Frame → Prop
  | p :: ps, v :: vs, frame =>
      MatchReadsSet p v frame ∧
        ∀ frame', matchPattern? p v frame = some frame' → MatchAllReadsSet ps vs frame'
  | _, _, _ => True

def MatchFrontReadsSet : List Pattern → List Value → Frame → Prop
  | p :: ps, v :: vs, frame =>
      MatchReadsSet p v frame ∧
        ∀ frame', matchPattern? p v frame = some frame' → MatchFrontReadsSet ps vs frame'
  | _, _, _ => True

def MatchEntriesReadSet : List (Core.Literal × Pattern) → Value → Frame → Prop
  | [], _, _ => True
  | (key, p) :: rest, value, frame =>
      ∀ held, value.mapGet? key.toValue = some held →
        MatchReadsSet p held frame ∧
          ∀ frame', matchPattern? p held frame = some frame' → MatchEntriesReadSet rest value frame'

end

/-! ## Activations -/

/-- An implementation reads only what is set, for any arguments: its patterns from the empty frame
on, its guard in a frame that the patterns leave and its body in a frame in which it is entered. -/
structure ImplementationReadsSet (host : Host (Except Fault)) (i : Implementation) : Prop where
  patterns : ∀ args, MatchAllReadsSet i.patterns args .empty
  guard : ∀ args frame, matchAll? i.patterns args .empty = some frame →
    ∀ code, i.guard = some code → ReadsSet host code frame
  body : ∀ args frame, admit? host i args = .ok (some frame) → BlockReadsSet host i.body frame

/-- All code of a declaration reads only what is set; the defaults start from the empty frame. -/
structure ActivationReadsSet (host : Host (Except Fault)) (decl : Declaration) : Prop where
  defaults : ∀ param ∈ decl.forward.params, ∀ code, param.default = some code →
    ReadsSet host code .empty
  implementations : ∀ i ∈ decl.implementations, ImplementationReadsSet host i

end Machine

/-! ## Addressed code -/

namespace Lowering

open Clausal.Core (Bindings Implementation Stmt)
open Clausal.Machine (Frame Host ReadsSet AllReadsSet EntriesReadSet BlockReadsSet Leaves
  MatchReadsSet MatchAllReadsSet MatchFrontReadsSet MatchEntriesReadSet ImplementationReadsSet
  ActivationReadsSet)
open Clausal.Meaning (Env default?)
open Outcome

theorem Agrees.leaves {α : Type} {n : Nat} {frame : Frame} {run : Except Fault (α × Frame)}
    {outcome : Except Fault α} (h : Agrees n frame run outcome) {next : α → Frame → Prop}
    (after : ∀ a frame', SameBelow n frame frame' → next a frame') : Leaves run next := by
  rintro a frame' rfl
  exact after a frame' h.2

/-- A block that stands for an empty one reads nothing. -/
theorem blockReadsSet_orNil {host : Host (Except Fault)} {block : Core.Block} {frame : Frame}
    (h : BlockReadsSet host block frame) : BlockReadsSet host (orNil block) frame := by
  cases block with
  | nil => exact ⟨trivial, fun _ _ _ => trivial⟩
  | cons stmt block => exact h

-- The environment plays no part in what is read; it is there because the comparison of runs says
-- that a frame which matches some environment goes on to match one.
mutual

/-- An addressed expression reads the slots of visible names, and these are set. -/
theorem AddressedExpr.readsSet {names : Names} {t t' : Bindings} {e : Surface.Expr} {c : Core.Expr}
    (h : AddressedExpr names t e c t') (host : Host (Except Fault)) {frame : Frame} {env : Env}
    (below : Below names t.length) (matched : Matches frame names env) : ReadsSet host c frame := by
  cases h with
  | integer | float | text | atom | bool | nil => trivial
  | ident found =>
      rcases matched.lookup_some found with ⟨value, _, inFrame⟩
      simp only [ReadsSet, inFrame, Option.isSome_some]
  | unary operand => exact operand.readsSet host below matched
  | binary left right =>
      refine ⟨left.readsSet host below matched, ?_⟩
      refine (left.agrees host below matched).leaves ?_
      intro _ frame₁ same
      exact right.readsSet host (below.mono left.le) (matched.keep below same)
  | call _ args => exact args.readsSet host below matched
  | field target => exact target.readsSet host below matched
  | paren single => exact single.readsSet host below matched
  | list items => exact items.readsSet host below matched
  | listTail items tail =>
      refine ⟨items.readsSet host below matched, ?_⟩
      refine (items.agrees host below matched).leaves ?_
      intro _ frame₁ same
      exact tail.readsSet host (below.mono items.le) (matched.keep below same)
  | tuple items => exact items.readsSet host below matched
  | map entries => exact entries.readsSet host below matched
  | cond condition thenBlock elseBlock =>
      refine ⟨condition.readsSet host below matched, ?_⟩
      refine (condition.agrees host below matched).leaves ?_
      intro _ frame₁ same
      have matched₁ := matched.keep below same
      -- Neither branch sees what the other binds, so both are judged in the same frame.
      refine ⟨blockReadsSet_orNil ?_, blockReadsSet_orNil ?_⟩
      · exact thenBlock.readsSet host (below.mono condition.le) matched₁
      · have le := Nat.le_trans condition.le thenBlock.le
        exact elseBlock.readsSet host (below.mono le) matched₁

theorem AddressedExprs.readsSet {names : Names} {t t' : Bindings} {es : List Surface.Expr}
    {cs : List Core.Expr} (h : AddressedExprs names t es cs t') (host : Host (Except Fault))
    {frame : Frame} {env : Env} (below : Below names t.length) (matched : Matches frame names env) :
    AllReadsSet host cs frame := by
  cases h with
  | nil => trivial
  | cons head tail =>
      refine ⟨head.readsSet host below matched, ?_⟩
      refine (head.agrees host below matched).leaves ?_
      intro _ frame₁ same
      exact tail.readsSet host (below.mono head.le) (matched.keep below same)

theorem AddressedEntries.readsSet {names : Names} {t t' : Bindings}
    {es : List (Surface.Expr × Surface.Expr)} {cs : List (Core.Expr × Core.Expr)}
    (h : AddressedEntries names t es cs t') (host : Host (Except Fault)) {frame : Frame} {env : Env}
    (below : Below names t.length) (matched : Matches frame names env) :
    EntriesReadSet host cs frame := by
  cases h with
  | nil => trivial
  | cons key value tail =>
      refine ⟨key.readsSet host below matched, ?_⟩
      refine (key.agrees host below matched).leaves ?_
      intro _ frame₁ same
      have below₁ := below.mono key.le
      have matched₁ := matched.keep below same
      refine ⟨value.readsSet host below₁ matched₁, ?_⟩
      refine (value.agrees host below₁ matched₁).leaves ?_
      intro _ frame₂ same₂
      exact tail.readsSet host (below₁.mono value.le) (matched₁.keep below₁ same₂)

theorem AddressedStmts.readsSet {names : Names} {t t' : Bindings} {stmts : List Surface.Stmt}
    {block : Core.Block} (h : AddressedStmts names t stmts block t') (host : Host (Except Fault))
    {frame : Frame} {env : Env} (below : Below names t.length) (matched : Matches frame names env) :
    BlockReadsSet host block frame := by
  cases h with
  | nil => trivial
  | @bind _ _ _ name _ _ _ _ t₁ _ value rest =>
      -- The slot is set before anything that sees the name is evaluated.
      refine ⟨value.readsSet host below matched, ?_⟩
      refine (value.agrees host below matched).leaves ?_
      intro v frame₁ same
      have below₁ := below.mono value.le
      exact rest.readsSet host (by simpa using below₁.push name)
        ((matched.keep below same).push below₁ name v)
  | expr value rest =>
      refine ⟨value.readsSet host below matched, ?_⟩
      refine (value.agrees host below matched).leaves ?_
      intro _ frame₁ same
      exact rest.readsSet host (below.mono value.le) (matched.keep below same)

end

/-- A match that agrees goes on from a frame that matches. -/
theorem AgreesMatch.matches {names : Names} {found : Option Frame} {found' : Option Env}
    (h : AgreesMatch names found found') {frame : Frame} (here : found = some frame) :
    ∃ env, Matches frame names env := by
  cases h with
  | some matched =>
      cases here
      exact ⟨_, matched⟩
  | none => cases here

mutual

/-- A clause head compares with a variable only after it has bound it. -/
theorem AddressedPattern.matchReadsSet {names names' : Names} {t t' : Bindings} {e : Surface.Expr}
    {p : Core.Pattern} (h : AddressedPattern names t e p names' t') (value : Value) {frame : Frame}
    {env : Env} (below : Below names t.length) (matched : Matches frame names env) :
    MatchReadsSet p value frame := by
  cases h with
  | wildcard | bind | literal => simp only [MatchReadsSet]
  | same _ found =>
      rcases matched.lookup_some found with ⟨held, _, inFrame⟩
      simp only [MatchReadsSet, inFrame, Option.isSome_some]
  | paren single => exact single.matchReadsSet value below matched
  | tuple items =>
      cases value with
      | tuple values =>
          simp only [MatchReadsSet]
          exact items.matchAllReadsSet values below matched
      | _ => simp only [MatchReadsSet]
  | list items =>
      cases value with
      | list values =>
          simp only [MatchReadsSet]
          exact items.matchAllReadsSet values below matched
      | _ => simp only [MatchReadsSet]
  | listTail items tail =>
      cases value with
      | list values =>
          simp only [MatchReadsSet]
          refine ⟨items.matchFrontReadsSet values below matched, ?_⟩
          intro rest frame₁ front
          -- The tail is matched after all items, and may compare with what they bound.
          have agree := items.agreesFront values below matched
          rw [front] at agree
          generalize Meaning.matchFront? _ values env = found at agree
          cases agree with
          | some both => exact tail.matchReadsSet _ (items.keepsBelow below) both.2
      | _ => simp only [MatchReadsSet]
  | map entries =>
      simp only [MatchReadsSet]
      exact entries.matchReadsSet value below matched

theorem AddressedPatterns.matchAllReadsSet {names names' : Names} {t t' : Bindings}
    {es : List Surface.Expr} {ps : List Core.Pattern}
    (h : AddressedPatterns names t es ps names' t') (values : List Value) {frame : Frame}
    {env : Env} (below : Below names t.length) (matched : Matches frame names env) :
    MatchAllReadsSet ps values frame := by
  cases h with
  | nil => simp only [MatchAllReadsSet]
  | cons head tail =>
      cases values with
      | nil => simp only [MatchAllReadsSet]
      | cons value values =>
          simp only [MatchAllReadsSet]
          refine ⟨head.matchReadsSet value below matched, ?_⟩
          intro frame₁ here
          rcases (head.agrees value below matched).matches here with ⟨env₁, matched₁⟩
          exact tail.matchAllReadsSet values (head.keepsBelow below) matched₁

theorem AddressedPatterns.matchFrontReadsSet {names names' : Names} {t t' : Bindings}
    {es : List Surface.Expr} {ps : List Core.Pattern}
    (h : AddressedPatterns names t es ps names' t') (values : List Value) {frame : Frame}
    {env : Env} (below : Below names t.length) (matched : Matches frame names env) :
    MatchFrontReadsSet ps values frame := by
  cases h with
  | nil => simp only [MatchFrontReadsSet]
  | cons head tail =>
      cases values with
      | nil => simp only [MatchFrontReadsSet]
      | cons value values =>
          simp only [MatchFrontReadsSet]
          refine ⟨head.matchReadsSet value below matched, ?_⟩
          intro frame₁ here
          rcases (head.agrees value below matched).matches here with ⟨env₁, matched₁⟩
          exact tail.matchFrontReadsSet values (head.keepsBelow below) matched₁

theorem AddressedPatternEntries.matchReadsSet {names names' : Names} {t t' : Bindings}
    {es : List (Surface.Expr × Surface.Expr)} {ps : List (Core.Literal × Core.Pattern)}
    (h : AddressedPatternEntries names t es ps names' t') (value : Value) {frame : Frame}
    {env : Env} (below : Below names t.length) (matched : Matches frame names env) :
    MatchEntriesReadSet ps value frame := by
  cases h with
  | nil => simp only [MatchEntriesReadSet]
  | cons _ head tail =>
      simp only [MatchEntriesReadSet]
      intro held _
      refine ⟨head.matchReadsSet held below matched, ?_⟩
      intro frame₁ here
      rcases (head.agrees held below matched).matches here with ⟨env₁, matched₁⟩
      exact tail.matchReadsSet value (head.keepsBelow below) matched₁

end

/-! ## Guards and validations of parameters -/

/-- The slots of all parameters are set. -/
def SetBelow (n : Nat) (frame : Frame) : Prop := ∀ slot, slot < n → (frame.get? slot).isSome

theorem SetBelow.set {n : Nat} {frame : Frame} (h : SetBelow n frame) (slot : Core.Slot)
    (value : Value) : SetBelow n (frame.set slot value) := by
  intro other lt
  by_cases same : other = slot
  · rw [same, Frame.get?_set_self]
    rfl
  · rw [Frame.get?_set_of_ne frame value same]
    exact h other lt

theorem HoldsFrom.setBelow {frame : Frame} {position : Nat} {values : List Value}
    (h : HoldsFrom frame position values) (before : SetBelow position frame) :
    SetBelow (position + values.length) frame := by
  induction values generalizing position with
  | nil => exact before
  | cons value values ih =>
      rw [List.length_cons, Nat.add_comm values.length 1, ← Nat.add_assoc]
      refine ih h.2 ?_
      intro slot lt
      rcases Nat.lt_succ_iff_lt_or_eq.mp lt with lt | rfl
      · exact before slot lt
      · rw [h.1]
        rfl

/-- Names whose slots are set have values. -/
theorem SetBelow.matches {n : Nat} {frame : Frame} {names : Names} (h : SetBelow n frame)
    (below : Below names n) : ∃ env, Matches frame names env := by
  induction names with
  | nil => exact ⟨[], .nil⟩
  | cons entry names ih =>
      have belowRest : Below names n := fun other member =>
        below other (List.mem_cons_of_mem _ member)
      have set := h entry.2 (below entry List.mem_cons_self)
      rcases ih belowRest with ⟨env, matched⟩
      rcases Option.isSome_iff_exists.mp set with ⟨value, holds⟩
      exact ⟨(entry.1, value) :: env, .cons ⟨rfl, holds⟩ matched⟩

/-- A guard that may be missing reads only what is set. -/
def GuardReadsSet (host : Host (Except Fault)) (guard : Option Core.Expr) (frame : Frame) : Prop :=
  ∀ code, guard = some code → ReadsSet host code frame

theorem paramGuard_readsSet {constraints : List TypeConstraint} {spec : ParamSpec}
    {guard : Option Core.Expr} (h : Compile.paramGuard? constraints spec = .ok guard)
    (host : Host (Except Fault)) {frame : Frame} (set : (frame.get? spec.slot).isSome) :
    GuardReadsSet host guard frame := by
  rcases Compile.paramGuard_cases h with rfl | ⟨test, rfl⟩
  · rintro code ⟨⟩
  · rintro code ⟨⟩
    exact ⟨set, fun _ _ _ => trivial⟩

/-- The later of two joined guards runs in the frame that the earlier one leaves, which is the same
one. -/
theorem GuardReadsSet.conjoin {host : Host (Except Fault)} {before guard : Option Core.Expr}
    {frame : Frame} {answer : Bool} (first : GuardReadsSet host before frame)
    (answers : GuardAnswers host frame before answer) (second : GuardReadsSet host guard frame) :
    GuardReadsSet host (Compile.conjoin before guard) frame := by
  match before, guard with
  | none, none | some _, none => exact first
  | none, some _ => exact second
  | some code, some code' =>
      rintro _ ⟨⟩
      refine ⟨first code rfl, ?_⟩
      intro value frame' run
      have same : Machine.evalExpr host code frame = .ok (.bool answer, frame) := answers
      rw [same] at run
      cases run
      exact second code' rfl

theorem AddressedParams.combinedGuard_readsSet {f : Surface.FunctionDef} {position : Nat}
    {t t' : Bindings} {params : List Surface.Param} {specs : List ParamSpec}
    (h : AddressedParams f position t params specs t') {constraints : List TypeConstraint}
    (bounds : LoweredConstraints f.constraints constraints) {host : Host (Except Fault)}
    {frame : Frame} {before guard : Option Core.Expr} {values : List Value} {answer : Bool}
    (combined : Compile.combinedGuard constraints before specs = .ok guard)
    (count : values.length = params.length) (holds : HoldsFrom frame position values)
    (answers : GuardAnswers host frame before answer) (first : GuardReadsSet host before frame) :
    GuardReadsSet host guard frame := by
  induction h generalizing before values answer with
  | nil =>
      cases combined
      exact first
  | @cons position _ param params spec specs _ _ _ slot type mode _ _ ih =>
      cases values with
      | nil => simp at count
      | cons value values =>
          simp only [Compile.combinedGuard] at combined
          cases asked : Compile.paramGuard? constraints spec with
          | error e => simp [asked] at combined
          | ok own =>
              simp only [asked] at combined
              -- What is asked of a parameter reads the slot of this parameter only.
              have here : frame.get? spec.slot = some value := slot ▸ holds.1
              have reads := paramGuard_readsSet asked host (by rw [here]; rfl)
              have answers' := answers.conjoin (paramGuard_answers bounds type mode asked here)
              exact ih combined (by simpa using count) holds.2 answers'
                (first.conjoin answers reads)

theorem validateSlot_frame {host : Host (Except Fault)} {slot : Core.Slot} {checker : String}
    {frame frame' : Frame} {held value : Value} (holds : frame.get? slot = some held)
    (run : Machine.validateSlot host slot checker frame = .ok (value, frame')) :
    frame' = frame.set slot value := by
  rw [validateSlot_eq holds] at run
  split at run
  next => cases run
  next =>
    split at run
    next =>
      cases run
      rfl
    next => cases run

/-- Validations read slots of parameters and leave them set. -/
theorem validations_readsSet {owner : String} {specs : List ParamSpec} {checks code : List Stmt}
    {n : Nat} {host : Host (Except Fault)} {frame : Frame}
    (lowered : Compile.validations owner specs = .ok checks) (lt : ∀ spec ∈ specs, spec.slot < n)
    (rest : ∀ frame, SetBelow n frame → BlockReadsSet host code frame) (set : SetBelow n frame) :
    BlockReadsSet host (checks ++ code) frame := by
  induction specs generalizing checks frame with
  | nil =>
      cases lowered
      exact rest frame set
  | cons spec specs ih =>
      simp only [Compile.validations] at lowered
      cases own : Compile.paramValidation? owner spec with
      | error e => simp [own] at lowered
      | ok check =>
          simp only [own] at lowered
          rcases map_eq_ok.mp lowered with ⟨others, lowered', rfl⟩
          have ltRest : ∀ other ∈ specs, other.slot < n :=
            fun other member => lt other (List.mem_cons_of_mem _ member)
          have later : ∀ frame, SetBelow n frame → BlockReadsSet host (others ++ code) frame :=
            fun frame set => ih lowered' ltRest set
          rcases Compile.paramValidation_cases own with rfl | ⟨checker, rfl⟩
          · exact later frame set
          · -- A value that passes is put back in its slot, so that all slots stay set.
            have here := set spec.slot (lt spec List.mem_cons_self)
            refine ⟨here, ?_⟩
            intro value frame' run
            rcases Option.isSome_iff_exists.mp here with ⟨held, holds⟩
            obtain rfl := validateSlot_frame holds run
            exact later _ (set.set spec.slot value)

/-! ## Functions -/

theorem length_eq_of_matchAll? {patterns : List Core.Pattern} {args : List Value}
    {frame frame' : Frame} (h : Machine.matchAll? patterns args frame = some frame') :
    args.length = patterns.length := by
  induction patterns generalizing args frame with
  | nil =>
      cases args with
      | nil => rfl
      | cons arg args => simp [Machine.matchAll?] at h
  | cons p patterns ih =>
      cases args with
      | nil => simp [Machine.matchAll?] at h
      | cons arg args =>
          simp only [Machine.matchAll?] at h
          split at h
          next frame₁ _ => simp [ih h]
          next => cases h

theorem matchAllReadsSet_bind (specs : List ParamSpec) (args : List Value) (frame : Frame) :
    MatchAllReadsSet (specs.map fun p => .bind p.slot) args frame := by
  induction specs generalizing args frame with
  | nil => simp only [List.map_nil, MatchAllReadsSet]
  | cons spec specs ih =>
      cases args with
      | nil => simp only [List.map_cons, MatchAllReadsSet]
      | cons arg args =>
          simp only [List.map_cons, MatchAllReadsSet, MatchReadsSet]
          exact ⟨trivial, fun frame' _ => ih args frame'⟩

theorem AddressedParams.defaults_readsSet {f : Surface.FunctionDef} {position : Nat}
    {t t' : Bindings} {params : List Surface.Param} {specs : List ParamSpec}
    (h : AddressedParams f position t params specs t') (host : Host (Except Fault)) :
    ∀ spec ∈ specs, ∀ code, spec.default = some code → ReadsSet host code .empty := by
  induction h with
  | nil => exact fun _ member => nomatch member
  | @cons _ _ param _ spec _ _ _ _ _ _ _ default _ ih =>
      intro other member code given
      rcases List.mem_cons.mp member with rfl | member
      · -- A default sees no names, so any frame will do, and the empty one is what it gets.
        rw [given] at default
        generalize default? param = written at default
        cases default with
        | some addressed =>
            exact addressed.readsSet host (fun _ member => nomatch member)
              (show Matches Frame.empty [] [] from .nil)
      · exact ih other member code given

/-- The head of a clause binds what its guard and body read. -/
theorem AddressedClause.readsSet {t t' : Bindings} {shape : ClauseShape} {clause : ClauseSpec}
    (h : AddressedClause t shape clause t') (host : Host (Except Fault)) :
    ImplementationReadsSet host ⟨clause.patterns, clause.guard, clause.body⟩ := by
  rcases h.exists_parts with ⟨names, t₁, t₂, body, patterns, guard, code, single⟩
  have none_below : Below [] t.length := fun _ member => nomatch member
  have start : Matches Frame.empty [] [] := .nil
  have below := patterns.keepsBelow none_below
  refine ⟨fun args => patterns.matchAllReadsSet args none_below start, ?_, ?_⟩
  · intro args frame matched condition given
    rcases (patterns.agreesAll args none_below start).matches matched with ⟨env, inFrame⟩
    change clause.guard = some condition at given
    rw [given] at guard
    generalize shape.guard = written at guard
    cases guard with
    | some addressed => exact addressed.readsSet host below inFrame
  · -- The body is entered in the frame the guard leaves, which still has what the head bound.
    intro args frame entered
    rcases admit_agreesMatch patterns guard host clause.body args with ⟨found, admitted, agree⟩
    rw [admitted] at entered
    cases entered
    rcases agree.matches rfl with ⟨env, inFrame⟩
    simp only [single]
    refine ⟨code.readsSet host (below.mono guard.grows.length_le) inFrame, ?_⟩
    exact fun _ _ _ => trivial

theorem AddressedClauses.readsSet {t t' : Bindings} {shapes : List ClauseShape}
    {clauses : List ClauseSpec} (h : AddressedClauses t shapes clauses t')
    (host : Host (Except Fault)) :
    ∀ clause ∈ clauses,
      ImplementationReadsSet host ⟨clause.patterns, clause.guard, clause.body⟩ := by
  induction h with
  | nil => exact fun _ member => nomatch member
  | cons head _ ih =>
      intro clause member
      rcases List.mem_cons.mp member with rfl | member
      · exact head.readsSet host
      · exact ih clause member

/-- The parameters bind what the guard, the validations and a single body read. -/
theorem AddressedParams.single_readsSet {f : Surface.FunctionDef} {owner : String}
    {spec : FunctionSpec} {t t' : Bindings}
    (params : AddressedParams f 0 (paramBindings 0 spec.params) f.params spec.params t)
    (bounds : LoweredConstraints f.constraints spec.constraints) {block checks : Core.Block}
    {guard : Option Core.Expr}
    (code : AddressedStmts (paramNames spec.params) t f.body block t')
    (guarded : Compile.combinedGuard spec.constraints none spec.params = .ok guard)
    (checked : Compile.validations owner spec.params = .ok checks) (host : Host (Except Fault)) :
    ImplementationReadsSet host
      ⟨spec.params.map fun p => .bind p.slot, guard, checks ++ orNil block⟩ := by
  -- Arguments that match are as many as the parameters, and each is in the slot of its position.
  have entered : ∀ args frame,
      Machine.matchAll? (spec.params.map fun p => .bind p.slot) args .empty = some frame →
        args.length = f.params.length ∧ HoldsFrom frame 0 args := by
    intro args frame matched
    have count : args.length = f.params.length := by
      simpa [params.length_eq] using length_eq_of_matchAll? matched
    rcases params.matchAll_bind count Frame.empty with ⟨frame', same, holds, _⟩
    rw [matched] at same
    cases same
    exact ⟨count, holds⟩
  have none_asked : ∀ frame, GuardAnswers host frame none true := fun _ => rfl
  have none_read : ∀ frame, GuardReadsSet host none frame := fun _ _ given => nomatch given
  refine ⟨fun args => matchAllReadsSet_bind spec.params args .empty, ?_, ?_⟩
  · intro args frame matched condition given
    rcases entered args frame matched with ⟨count, holds⟩
    exact params.combinedGuard_readsSet bounds guarded count holds (none_asked frame) (none_read frame)
      condition given
  · intro args frame admitted
    have slotLt : ∀ param ∈ spec.params, param.slot < spec.params.length := by
      intro param member
      simpa using params.slot_lt member
    cases matched : Machine.matchAll? (spec.params.map fun p => .bind p.slot) args .empty with
    | none =>
        simp only [Machine.admit?, matched] at admitted
        cases admitted
    | some start =>
        rcases entered args start matched with ⟨count, holds⟩
        have answers := params.combinedGuard_answers bounds guarded count holds (none_asked start)
        rw [admit?_of_answers matched answers] at admitted
        -- The guard changes nothing, so the body is entered in the frame of the patterns.
        split at admitted
        next =>
          cases admitted
          have set : SetBelow spec.params.length frame := by
            have all := holds.setBelow fun _ lt => absurd lt (Nat.not_lt_zero _)
            simpa [count, params.length_eq] using all
          refine validations_readsSet checked slotLt ?_ set
          intro frame set
          rcases set.matches params.namesBelow with ⟨env, inFrame⟩
          have below := params.namesBelow.mono params.length_le
          exact blockReadsSet_orNil (code.readsSet host below inFrame)
        next => cases admitted

/-- All code of a written function reads only what is set. -/
theorem AddressedFunction.activationReadsSet {owner : String} {f : Surface.FunctionDef}
    {spec : FunctionSpec} {decl : Core.Declaration} (h : AddressedFunction f spec)
    (compiled : Compile.compileFunction owner spec = .ok decl) (host : Host (Except Fault)) :
    ActivationReadsSet host decl := by
  rcases Compile.compileFunction_cases compiled with ⟨implementations, rfl, body⟩
  rcases h.code with ⟨t, params, code⟩
  refine ⟨?_, ?_⟩
  · intro param member code given
    rcases List.mem_map.mp member with ⟨spec', inSpec, rfl⟩
    exact params.defaults_readsSet host spec' inSpec code given
  · intro i member
    -- A single body is entered behind the guard and the validations of the parameters; a clause binds
    -- what it reads by itself.
    cases body with
    | single written guarded checked =>
        rw [written] at code
        cases code with
        | single shape stmts =>
            cases List.mem_singleton.mp member
            exact params.single_readsSet h.constraints stmts guarded checked host
    | clauses written all =>
        rw [written] at code
        cases code with
        | clauses shape clauses =>
            rcases Compile.exists_mem_of_forall₂ all member with ⟨clause, inClauses, here⟩
            rcases Compile.clauseImplementation_eq_ok here with ⟨rfl, _⟩
            exact clauses.readsSet host clause inClauses

end Lowering

/-! ## Emitted code -/

namespace Compile

open Clausal.Core (Implementation)
open Clausal.Machine (Frame Host admit? BlockReadsSet ActivationReadsSet)

theorem opDecl_body_readsSet {owner : String} {op : Core.RecordOp} {host : Host (Except Fault)}
    {i : Implementation} (member : i ∈ (opDecl owner op).implementations) {args : List Value}
    {frame : Frame} (admitted : admit? host i args = .ok (some frame)) :
    BlockReadsSet host i.body frame := by
  cases List.mem_singleton.mp member
  -- Patterns that only bind take exactly as many arguments as there are parameters.
  match op, args with
  | .new, [] | .validate, [] | .update, [] | .update, [_] => cases admitted
  | .new, _ :: _ :: _ | .validate, _ :: _ :: _ | .update, _ :: _ :: _ :: _ => cases admitted
  | .new, [_] | .validate, [_] =>
      cases admitted
      exact ⟨⟨rfl, fun _ _ _ => trivial⟩, fun _ _ _ => trivial⟩
  | .update, [_, _] =>
      cases admitted
      refine ⟨⟨rfl, ?_⟩, fun _ _ _ => trivial⟩
      rintro _ _ ⟨⟩
      exact ⟨rfl, fun _ _ _ => trivial⟩

theorem opDecl_activationReadsSet (owner : String) (op : Core.RecordOp)
    (host : Host (Except Fault)) : ActivationReadsSet host (opDecl owner op) := by
  refine ⟨?_, ?_⟩
  · intro param member code given
    -- Only `new` has a default, the empty map.
    cases op with
    | new =>
        cases List.mem_singleton.mp member
        cases given
        trivial
    | validate =>
        cases List.mem_singleton.mp member
        cases given
    | update =>
        rcases List.mem_cons.mp member with rfl | member
        · cases given
        · cases List.mem_singleton.mp member
          cases given
  · intro i member
    refine ⟨?_, ?_, fun args frame admitted => opDecl_body_readsSet member admitted⟩
    · cases List.mem_singleton.mp member
      exact fun args => Lowering.matchAllReadsSet_bind _ args .empty
    · cases List.mem_singleton.mp member
      exact fun _ _ _ _ given => nomatch given

/-- Emitted code reads only what is set. -/
theorem Emitted.activationReadsSet {owner : String} {decl : Core.Declaration}
    (h : Emitted owner decl) (host : Host (Except Fault)) : ActivationReadsSet host decl := by
  rcases h with ⟨routine, source⟩
  cases source with
  | written lowered compiled =>
      exact (Lowering.lowerFunction_addressed lowered).activationReadsSet compiled host
  | @record op _ compiled =>
      cases compileFunction_opSpec compiled
      exact opDecl_activationReadsSet owner op host

end Compile
end Clausal
