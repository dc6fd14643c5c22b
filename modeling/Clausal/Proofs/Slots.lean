import Clausal.Proofs.Emitted
import Clausal.Proofs.Lowering.Function

/-!
# The slots of a declaration

`Declaration.slots` lists every slot that occurs in a declaration: in its parameters and their
defaults, and in the patterns, guards and bodies of its implementations.  Main statement: in what
the compiler emits, each of them is a place in the table of bindings (`Emitted.slots_lt`).
-/

namespace Clausal

/-! ## Occurrences -/

namespace Core

mutual

/-- The slots that occur in an expression. -/
def Expr.slots : Expr → List Slot
  | .literal _ => []
  | .var slot => [slot]
  | .unary _ operand => operand.slots
  | .binary _ left right => left.slots ++ right.slots
  | .call _ args => slotsAmong args
  | .list items => slotsAmong items
  | .listTail items tail => slotsAmong items ++ tail.slots
  | .tuple items => slotsAmong items
  | .map entries => slotsInEntries entries
  | .field target _ => target.slots
  | .cond condition thenBlock elseBlock =>
      condition.slots ++ slotsInBlock thenBlock ++ slotsInBlock elseBlock
  | .record _ _ args => slotsAmong args

def slotsAmong : List Expr → List Slot
  | [] => []
  | e :: es => e.slots ++ slotsAmong es

def slotsInEntries : List (Expr × Expr) → List Slot
  | [] => []
  | (k, v) :: rest => k.slots ++ v.slots ++ slotsInEntries rest

def slotsInBlock : List Stmt → List Slot
  | [] => []
  | .bind slot value :: rest => slot :: value.slots ++ slotsInBlock rest
  | .validate slot _ :: rest => slot :: slotsInBlock rest
  | .expr value :: rest => value.slots ++ slotsInBlock rest

end

mutual

/-- The slots that occur in a pattern. -/
def Pattern.slots : Pattern → List Slot
  | .wildcard => []
  | .bind slot => [slot]
  | .same slot => [slot]
  | .literal _ => []
  | .tuple items => slotsInPatterns items
  | .list items => slotsInPatterns items
  | .listTail items tail => slotsInPatterns items ++ tail.slots
  | .map entries => slotsInPatternEntries entries

def slotsInPatterns : List Pattern → List Slot
  | [] => []
  | p :: ps => p.slots ++ slotsInPatterns ps

def slotsInPatternEntries : List (Literal × Pattern) → List Slot
  | [] => []
  | (_, p) :: rest => p.slots ++ slotsInPatternEntries rest

end

def optionSlots (e : Option Expr) : List Slot := e.elim [] Expr.slots

def Implementation.slots (i : Implementation) : List Slot :=
  slotsInPatterns i.patterns ++ optionSlots i.guard ++ slotsInBlock i.body

/-- The slots that occur in a declaration. -/
def Declaration.slots (d : Declaration) : List Slot :=
  (d.forward.params.flatMap fun p => p.slot :: optionSlots p.default)
    ++ d.implementations.flatMap Implementation.slots

theorem slotsInBlock_append (block more : Block) :
    slotsInBlock (block ++ more) = slotsInBlock block ++ slotsInBlock more := by
  induction block with
  | nil => rfl
  | cons stmt block ih => cases stmt <;> simp [slotsInBlock, ih]

end Core

/-! ## Slots of addressed code -/

namespace Lowering

open Clausal.Core (Slot Bindings)

theorem slotsInBlock_orNil (block : Core.Block) :
    Core.slotsInBlock (orNil block) = Core.slotsInBlock block := by
  cases block <;> rfl

/-- Every slot of a list is below `n`. -/
def AllBelow (slots : List Slot) (n : Nat) : Prop := ∀ slot ∈ slots, slot < n

theorem AllBelow.nil (n : Nat) : AllBelow [] n := fun _ member => nomatch member

theorem AllBelow.mono {slots : List Slot} {n n' : Nat} (h : AllBelow slots n) (le : n ≤ n') :
    AllBelow slots n' := fun slot member => Nat.lt_of_lt_of_le (h slot member) le

theorem AllBelow.append {slots more : List Slot} {n : Nat} (h : AllBelow slots n)
    (h' : AllBelow more n) : AllBelow (slots ++ more) n := by
  intro slot member
  rcases List.mem_append.mp member with member | member
  · exact h slot member
  · exact h' slot member

theorem AllBelow.cons {slot : Slot} {slots : List Slot} {n : Nat} (here : slot < n)
    (h : AllBelow slots n) : AllBelow (slot :: slots) n := by
  intro other member
  rcases List.mem_cons.mp member with rfl | member
  · exact here
  · exact h other member

theorem Below.lookup {names : Names} {n : Nat} (below : Below names n) {name : String} {slot : Slot}
    (found : names.lookup name = some slot) : slot < n := by
  rcases List.lookup_eq_some_iff.mp found with ⟨before, after, rfl, _⟩
  exact below (name, slot) (by simp)

mutual

/-- The slots of an addressed expression are in its table. -/
theorem AddressedExpr.slots_lt {names : Names} {t t' : Bindings} {e : Surface.Expr} {c : Core.Expr}
    (h : AddressedExpr names t e c t') (below : Below names t.length) :
    AllBelow c.slots t'.length := by
  cases h with
  | integer | float | text | atom | bool | nil => exact AllBelow.nil _
  | ident found =>
      exact AllBelow.cons (below.lookup found) (AllBelow.nil _)
  | unary operand => exact operand.slots_lt below
  | binary left right =>
      exact ((left.slots_lt below).mono right.le).append (right.slots_lt (below.mono left.le))
  | call _ args => exact args.slots_lt below
  | field target => exact target.slots_lt below
  | paren single => exact single.slots_lt below
  | list items => exact items.slots_lt below
  | listTail items tail =>
      exact ((items.slots_lt below).mono tail.le).append (tail.slots_lt (below.mono items.le))
  | tuple items => exact items.slots_lt below
  | map entries => exact entries.slots_lt below
  | cond condition thenBlock elseBlock =>
      have le := Nat.le_trans condition.le thenBlock.le
      simp only [Core.Expr.slots, slotsInBlock_orNil]
      -- Every part is judged by the table after it, and the last table has all slots of the others.
      refine (((condition.slots_lt below).mono ?_).append ?_).append ?_
      · exact Nat.le_trans thenBlock.le elseBlock.le
      · exact (thenBlock.slots_lt (below.mono condition.le)).mono elseBlock.le
      · exact elseBlock.slots_lt (below.mono le)

theorem AddressedExprs.slots_lt {names : Names} {t t' : Bindings} {es : List Surface.Expr}
    {cs : List Core.Expr} (h : AddressedExprs names t es cs t') (below : Below names t.length) :
    AllBelow (Core.slotsAmong cs) t'.length := by
  cases h with
  | nil => exact AllBelow.nil _
  | cons head tail =>
      exact ((head.slots_lt below).mono tail.le).append (tail.slots_lt (below.mono head.le))

theorem AddressedEntries.slots_lt {names : Names} {t t' : Bindings}
    {es : List (Surface.Expr × Surface.Expr)} {cs : List (Core.Expr × Core.Expr)}
    (h : AddressedEntries names t es cs t') (below : Below names t.length) :
    AllBelow (Core.slotsInEntries cs) t'.length := by
  cases h with
  | nil => exact AllBelow.nil _
  | cons key value tail =>
      have le := Nat.le_trans key.le value.le
      have after := tail.grows.length_le
      refine (((key.slots_lt below).mono ?_).append ?_).append (tail.slots_lt (below.mono le))
      · exact Nat.le_trans value.le after
      · exact (value.slots_lt (below.mono key.le)).mono after

theorem AddressedStmts.slots_lt {names : Names} {t t' : Bindings} {stmts : List Surface.Stmt}
    {block : Core.Block} (h : AddressedStmts names t stmts block t')
    (below : Below names t.length) : AllBelow (Core.slotsInBlock block) t'.length := by
  cases h with
  | nil => exact AllBelow.nil _
  | @bind _ _ _ name _ _ _ _ t₁ _ value rest =>
      -- The slot of the binding was the next one when it was given out, so the table now has it.
      have inside : t₁.length < t'.length := by
        have le := rest.le
        rw [List.length_append, List.length_singleton] at le
        exact le
      have after := (below.mono value.le).push name
      refine .append (.cons inside ((value.slots_lt below).mono (Nat.le_of_lt inside))) ?_
      exact rest.slots_lt (by simpa using after)
  | expr value rest =>
      exact ((value.slots_lt below).mono rest.le).append (rest.slots_lt (below.mono value.le))

end

mutual

/-- The slots of an addressed clause head are in its table. -/
theorem AddressedPattern.slots_lt {names names' : Names} {t t' : Bindings} {e : Surface.Expr}
    {p : Core.Pattern} (h : AddressedPattern names t e p names' t')
    (below : Below names t.length) : AllBelow p.slots t'.length := by
  cases h with
  | wildcard | literal => exact AllBelow.nil _
  | same _ found => exact AllBelow.cons (below.lookup found) (AllBelow.nil _)
  | bind => exact AllBelow.cons (by simp) (AllBelow.nil _)
  | paren single => exact single.slots_lt below
  | tuple items => exact items.slots_lt below
  | list items => exact items.slots_lt below
  | listTail items tail =>
      refine ((items.slots_lt below).mono tail.grows.length_le).append ?_
      exact tail.slots_lt (items.keepsBelow below)
  | map entries => exact entries.slots_lt below

theorem AddressedPatterns.slots_lt {names names' : Names} {t t' : Bindings}
    {es : List Surface.Expr} {ps : List Core.Pattern}
    (h : AddressedPatterns names t es ps names' t') (below : Below names t.length) :
    AllBelow (Core.slotsInPatterns ps) t'.length := by
  cases h with
  | nil => exact AllBelow.nil _
  | cons head tail =>
      refine ((head.slots_lt below).mono tail.grows.length_le).append ?_
      exact tail.slots_lt (head.keepsBelow below)

theorem AddressedPatternEntries.slots_lt {names names' : Names} {t t' : Bindings}
    {es : List (Surface.Expr × Surface.Expr)} {ps : List (Core.Literal × Core.Pattern)}
    (h : AddressedPatternEntries names t es ps names' t') (below : Below names t.length) :
    AllBelow (Core.slotsInPatternEntries ps) t'.length := by
  cases h with
  | nil => exact AllBelow.nil _
  | cons _ head tail =>
      refine ((head.slots_lt below).mono tail.grows.length_le).append ?_
      exact tail.slots_lt (head.keepsBelow below)

end

/-! ## Slots of functions -/

theorem AddressedOption.slots_lt {names : Names} {t t' : Bindings} {e : Option Surface.Expr}
    {c : Option Core.Expr} (h : AddressedOption names t e c t') (below : Below names t.length) :
    AllBelow (Core.optionSlots c) t'.length := by
  cases h with
  | none => exact AllBelow.nil _
  | some code => exact code.slots_lt below

theorem AddressedClause.slots_lt {t t' : Bindings} {shape : ClauseShape} {clause : ClauseSpec}
    (h : AddressedClause t shape clause t') :
    AllBelow (Core.Implementation.slots ⟨clause.patterns, clause.guard, clause.body⟩)
      t'.length := by
  rcases h.exists_parts with ⟨names, t₁, t₂, body, patterns, guard, code, single⟩
  have none_below : Below [] t.length := fun _ member => nomatch member
  have below := patterns.keepsBelow none_below
  simp only [Core.Implementation.slots, single, Core.slotsInBlock, List.append_nil]
  refine (((patterns.slots_lt none_below).mono ?_).append ?_).append ?_
  · exact Nat.le_trans guard.grows.length_le code.le
  · exact (guard.slots_lt below).mono code.le
  · exact code.slots_lt (below.mono guard.grows.length_le)

theorem AddressedClauses.slots_lt {t t' : Bindings} {shapes : List ClauseShape}
    {clauses : List ClauseSpec} (h : AddressedClauses t shapes clauses t') :
    ∀ clause ∈ clauses,
      AllBelow (Core.Implementation.slots ⟨clause.patterns, clause.guard, clause.body⟩)
        t'.length := by
  induction h with
  | nil => exact fun _ member => nomatch member
  | cons head tail ih =>
      intro clause member
      rcases List.mem_cons.mp member with rfl | member
      · exact head.slots_lt.mono tail.grows.length_le
      · exact ih clause member

theorem AddressedParams.default_slots_lt {f : Surface.FunctionDef} {position : Nat}
    {t t' : Bindings} {params : List Surface.Param} {specs : List ParamSpec}
    (h : AddressedParams f position t params specs t') :
    ∀ spec ∈ specs, AllBelow (Core.optionSlots spec.default) t'.length := by
  induction h with
  | nil => exact fun _ member => nomatch member
  | cons _ _ _ _ default rest ih =>
      intro spec member
      rcases List.mem_cons.mp member with rfl | member
      · exact (default.slots_lt fun _ member => nomatch member).mono rest.grows.length_le
      · exact ih spec member

end Lowering

/-! ## Slots of compiled functions -/

namespace Compile

open Clausal.Core (Declaration Expr Implementation)
open Clausal.Lowering (AllBelow AddressedFunction lowerFunction_addressed)
open Outcome

theorem paramGuard_slots {constraints : List TypeConstraint} {param : ParamSpec}
    {guard : Option Expr} (h : paramGuard? constraints param = .ok guard) {n : Nat}
    (lt : param.slot < n) : AllBelow (Core.optionSlots guard) n := by
  rcases paramGuard_cases h with rfl | ⟨test, rfl⟩
  · exact AllBelow.nil n
  · exact AllBelow.cons lt (AllBelow.nil n)

theorem conjoin_slots {before guard : Option Expr} {n : Nat}
    (first : AllBelow (Core.optionSlots before) n) (second : AllBelow (Core.optionSlots guard) n) :
    AllBelow (Core.optionSlots (conjoin before guard)) n := by
  match before, guard with
  | none, none | some _, none => exact first
  | none, some _ => exact second
  | some _, some _ => exact first.append second

theorem combinedGuard_slots {constraints : List TypeConstraint} {before guard : Option Expr}
    {params : List ParamSpec} (h : combinedGuard constraints before params = .ok guard) {n : Nat}
    (lt : ∀ param ∈ params, param.slot < n) (first : AllBelow (Core.optionSlots before) n) :
    AllBelow (Core.optionSlots guard) n := by
  refine combinedGuard_induction (P := fun guard => AllBelow (Core.optionSlots guard) n)
    (fun _ _ => conjoin_slots) h first ?_
  intro param member own asked
  exact paramGuard_slots asked (lt param member)

theorem paramValidation_slots {owner : String} {param : ParamSpec} {check : Option Core.Stmt}
    (h : paramValidation? owner param = .ok check) {n : Nat} (lt : param.slot < n) :
    AllBelow (Core.slotsInBlock check.toList) n := by
  rcases paramValidation_cases h with rfl | ⟨checker, rfl⟩
  · exact AllBelow.nil n
  · exact AllBelow.cons lt (AllBelow.nil n)

theorem validations_slots {owner : String} {params : List ParamSpec} {checks : Core.Block}
    (h : validations owner params = .ok checks) {n : Nat} (lt : ∀ param ∈ params, param.slot < n) :
    AllBelow (Core.slotsInBlock checks) n := by
  induction params generalizing checks with
  | nil =>
      cases h
      exact AllBelow.nil n
  | cons param params ih =>
      simp only [validations] at h
      split at h
      next => cases h
      next check asked =>
        rcases map_eq_ok.mp h with ⟨others, rest, rfl⟩
        rw [Core.slotsInBlock_append]
        refine (paramValidation_slots asked (lt param List.mem_cons_self)).append ?_
        exact ih rest fun other member => lt other (List.mem_cons_of_mem _ member)

theorem slotsInPatterns_bind {params : List ParamSpec} {n : Nat}
    (lt : ∀ param ∈ params, param.slot < n) :
    AllBelow (Core.slotsInPatterns (params.map fun p => .bind p.slot)) n := by
  induction params with
  | nil => exact AllBelow.nil n
  | cons param params ih =>
      refine .cons (lt param List.mem_cons_self) ?_
      exact ih fun other member => lt other (List.mem_cons_of_mem _ member)

theorem slots_lt_of_addressed {owner : String} {f : Surface.FunctionDef} {spec : FunctionSpec}
    {decl : Declaration} (h : AddressedFunction f spec)
    (compiled : compileFunction owner spec = .ok decl) :
    AllBelow decl.slots decl.bindings.length := by
  rcases compileFunction_cases compiled with ⟨implementations, rfl, body⟩
  rcases h.code with ⟨t, params, code⟩
  have inTable : spec.params.length ≤ spec.bindings.length :=
    Nat.le_trans params.length_le code.grows.length_le
  have lt : ∀ param ∈ spec.params, param.slot < spec.bindings.length := fun param member =>
    Nat.lt_of_lt_of_le (by simpa using params.slot_lt member) inTable
  refine .append ?_ ?_
  · -- Parameters and defaults.
    intro slot member
    rcases List.mem_flatMap.mp member with ⟨param, inParams, inside⟩
    rcases List.mem_map.mp inParams with ⟨spec', inSpec, rfl⟩
    have default := (params.default_slots_lt spec' inSpec).mono code.grows.length_le
    exact AllBelow.cons (lt spec' inSpec) default slot inside
  · -- Patterns, guards and bodies.
    intro slot member
    rcases List.mem_flatMap.mp member with ⟨implementation, inImplementations, inside⟩
    cases body with
    | single written guarded checked =>
        rw [written] at code
        cases code with
        | single shape stmts =>
            cases List.mem_singleton.mp inImplementations
            have block := stmts.slots_lt (params.namesBelow.mono params.length_le)
            refine AllBelow.append (.append (slotsInPatterns_bind lt) ?_) ?_ slot inside
            · exact combinedGuard_slots guarded lt (AllBelow.nil _)
            · rw [Core.slotsInBlock_append, Lowering.slotsInBlock_orNil]
              exact (validations_slots checked lt).append block
    | clauses written all =>
        rw [written] at code
        cases code with
        | clauses shape clauses =>
            rcases exists_mem_of_forall₂ all inImplementations with ⟨clause, inClauses, here⟩
            rcases clauseImplementation_eq_ok here with ⟨rfl, _⟩
            exact clauses.slots_lt clause inClauses slot inside

/-- Every slot of an emitted declaration is a place in its table of bindings. -/
theorem Emitted.slots_lt {owner : String} {decl : Declaration} (h : Emitted owner decl) :
    AllBelow decl.slots decl.bindings.length := by
  rcases h with ⟨routine, source⟩
  cases source with
  | written lowered compiled =>
      exact slots_lt_of_addressed (lowerFunction_addressed lowered) compiled
  | @record op _ compiled =>
      cases compileFunction_opSpec compiled
      cases op with
      | new | validate =>
          change ∀ slot ∈ [0, 0, 0], slot < 1
          decide
      | update =>
          change ∀ slot ∈ [0, 1, 0, 1, 0, 1], slot < 2
          decide

end Compile
end Clausal
