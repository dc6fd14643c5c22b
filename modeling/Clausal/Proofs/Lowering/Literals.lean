import Clausal.Proofs.Shape
import Clausal.Proofs.Syntax.Everywhere

/-!
# Where the literals of lowered code come from

`FunctionSpec.literals` lists every literal of a lowered function: in the defaults of its parameters, in its
patterns and the keys of map patterns, and in its guards and bodies.  A literal of the code is one that is
written in the source, or the `nil` that stands for an empty block.  So a property of everything that is
written as a literal (`LiteralsHave`) is one of all literals of the code, if `nil` has it too.

Main statement: `literals_lowerFile`.
-/

namespace Clausal

/-! ## Occurrences -/

namespace Core

mutual

/-- The literals in an expression. -/
def Expr.literals : Expr → List Literal
  | .literal value => [value]
  | .var _ => []
  | .unary _ operand => operand.literals
  | .binary _ left right => left.literals ++ right.literals
  | .call _ args => literalsAmong args
  | .list items => literalsAmong items
  | .listTail items tail => literalsAmong items ++ tail.literals
  | .tuple items => literalsAmong items
  | .map entries => literalsInEntries entries
  | .field target _ => target.literals
  | .cond condition thenBlock elseBlock =>
      condition.literals ++ (literalsInBlock thenBlock ++ literalsInBlock elseBlock)
  | .record _ _ args => literalsAmong args

def literalsAmong : List Expr → List Literal
  | [] => []
  | e :: es => e.literals ++ literalsAmong es

def literalsInEntries : List (Expr × Expr) → List Literal
  | [] => []
  | (k, v) :: rest => k.literals ++ (v.literals ++ literalsInEntries rest)

def literalsInBlock : List Stmt → List Literal
  | [] => []
  | .bind _ value :: rest => value.literals ++ literalsInBlock rest
  | .validate _ _ :: rest => literalsInBlock rest
  | .expr value :: rest => value.literals ++ literalsInBlock rest

end

mutual

/-- The literals in a pattern, the keys of maps among them. -/
def Pattern.literals : Pattern → List Literal
  | .literal value => [value]
  | .tuple items => literalsInPatterns items
  | .list items => literalsInPatterns items
  | .listTail items tail => literalsInPatterns items ++ tail.literals
  | .map entries => literalsInPatternEntries entries
  | _ => []

def literalsInPatterns : List Pattern → List Literal
  | [] => []
  | p :: ps => p.literals ++ literalsInPatterns ps

def literalsInPatternEntries : List (Literal × Pattern) → List Literal
  | [] => []
  | (key, p) :: rest => key :: (p.literals ++ literalsInPatternEntries rest)

end

def optionLiterals (e : Option Expr) : List Literal := e.elim [] Expr.literals

end Core

open Clausal.Core (Literal literalsAmong literalsInEntries literalsInBlock literalsInPatterns
  literalsInPatternEntries optionLiterals)

def ClauseSpec.literals (clause : ClauseSpec) : List Literal :=
  literalsInPatterns clause.patterns ++ (optionLiterals clause.guard ++ literalsInBlock clause.body)

def FunctionBody.literals : FunctionBody → List Literal
  | .single block => literalsInBlock block
  | .clauses each => each.flatMap ClauseSpec.literals

/-- The literals in a function. -/
def FunctionSpec.literals (spec : FunctionSpec) : List Literal :=
  (spec.params.flatMap fun param => optionLiterals param.default) ++ spec.body.literals

namespace Lowering

open Clausal.Surface (Node)
open Clausal.Core (Bindings)
open Clausal.Meaning (default?)

/-- A property of what an expression of the source is as a literal, if it is one. -/
def LiteralHas (S : Literal → Prop) (e : Surface.Expr) : Prop := ∀ value, literal? e = some value → S value

/-- A property of all literals that are written in a node of the source. -/
abbrev LiteralsHave (S : Literal → Prop) (node : Node) : Prop := node.Everywhere (LiteralHas S)

variable {S : Literal → Prop} (nil : S .nil)

include nil in
/-- The `nil` of an empty block is the only literal that is not written. -/
theorem literalsInBlock_orNil {block : Core.Block} (holds : ∀ value ∈ literalsInBlock block, S value) :
    ∀ value ∈ literalsInBlock (orNil block), S value := by
  cases block with
  | nil => exact List.forall_mem_singleton.mpr nil
  | cons => exact holds

/-- A list with a tail has its items in front of the tail. -/
theorem everywhere_listTail {P : Surface.Expr → Prop} {span : Span} {items : List Surface.Expr}
    {tail : Surface.Expr} (holds : (Node.expr (.listTail span items tail)).Everywhere P) :
    (∀ e ∈ items, (Node.expr e).Everywhere P) ∧ (Node.expr tail).Everywhere P := by
  refine ⟨fun e member => holds.part (List.mem_map_of_mem ?_), holds.part (List.mem_map_of_mem ?_)⟩
  · exact List.mem_append_left _ member
  · exact List.mem_append_right _ (List.mem_singleton_self tail)

/-- A map has the keys and the values of its entries. -/
theorem everywhere_map {P : Surface.Expr → Prop} {span : Span}
    {entries : List (Surface.Expr × Surface.Expr)} (holds : (Node.expr (.map span entries)).Everywhere P) :
    ∀ entry ∈ entries, (Node.expr entry.1).Everywhere P ∧ (Node.expr entry.2).Everywhere P := by
  intro entry member
  have part {e : Surface.Expr} (inside : e ∈ [entry.1, entry.2]) : (Node.expr e).Everywhere P :=
    holds.part (List.mem_map_of_mem (List.mem_flatMap.mpr ⟨entry, member, inside⟩))
  exact ⟨part List.mem_cons_self, part (List.mem_cons_of_mem _ List.mem_cons_self)⟩

/-! ## Literals of addressed code -/

mutual

theorem AddressedExpr.forall_literals {names : Names} {t t' : Bindings} {e : Surface.Expr} {c : Core.Expr}
    (h : AddressedExpr names t e c t') (nil : S .nil) (written : LiteralsHave S (.expr e)) :
    ∀ value ∈ c.literals, S value := by
  cases h with
  | integer | float | text | atom | bool | nil => exact List.forall_mem_singleton.mpr (written.root _ rfl)
  | ident => exact List.forall_mem_nil _
  | unary operand => exact operand.forall_literals nil (written.part List.mem_cons_self)
  | binary left right =>
      have first := left.forall_literals nil (written.part List.mem_cons_self)
      have second := right.forall_literals nil (written.part (List.mem_cons_of_mem _ List.mem_cons_self))
      exact List.forall_mem_append.mpr ⟨first, second⟩
  | call _ args =>
      refine args.forall_literals nil fun e member => written.part ?_
      exact List.mem_cons_of_mem _ (List.mem_map_of_mem member)
  | field target => exact target.forall_literals nil (written.part List.mem_cons_self)
  | paren single => exact single.forall_literals nil (written.part List.mem_cons_self)
  | list items => exact items.forall_literals nil fun e member => written.part (List.mem_map_of_mem member)
  | listTail items tail =>
      rcases everywhere_listTail written with ⟨first, last⟩
      exact List.forall_mem_append.mpr ⟨items.forall_literals nil first, tail.forall_literals nil last⟩
  | tuple items => exact items.forall_literals nil fun e member => written.part (List.mem_map_of_mem member)
  | map entries => exact entries.forall_literals nil (everywhere_map written)
  | cond condition thenBlock elseBlock =>
      have first := condition.forall_literals nil (written.part List.mem_cons_self)
      have second := thenBlock.forall_literals nil fun stmt member =>
        written.part (by simp [Node.parts, member])
      have third := elseBlock.forall_literals nil fun stmt member =>
        written.part (by simp [Node.parts, member])
      -- A branch without statements gives `nil`, a literal that was not written.
      exact List.forall_mem_append.mpr ⟨first, List.forall_mem_append.mpr
        ⟨literalsInBlock_orNil nil second, literalsInBlock_orNil nil third⟩⟩

theorem AddressedExprs.forall_literals {names : Names} {t t' : Bindings} {es : List Surface.Expr}
    {cs : List Core.Expr} (h : AddressedExprs names t es cs t') (nil : S .nil)
    (written : ∀ e ∈ es, LiteralsHave S (.expr e)) : ∀ value ∈ literalsAmong cs, S value := by
  cases h with
  | nil => exact List.forall_mem_nil _
  | cons head tail =>
      rcases List.forall_mem_cons.mp written with ⟨first, rest⟩
      exact List.forall_mem_append.mpr ⟨head.forall_literals nil first, tail.forall_literals nil rest⟩

theorem AddressedEntries.forall_literals {names : Names} {t t' : Bindings}
    {es : List (Surface.Expr × Surface.Expr)} {cs : List (Core.Expr × Core.Expr)}
    (h : AddressedEntries names t es cs t') (nil : S .nil)
    (written : ∀ entry ∈ es, LiteralsHave S (.expr entry.1) ∧ LiteralsHave S (.expr entry.2)) :
    ∀ value ∈ literalsInEntries cs, S value := by
  cases h with
  | nil => exact List.forall_mem_nil _
  | cons key value tail =>
      rcases List.forall_mem_cons.mp written with ⟨⟨first, second⟩, rest⟩
      exact List.forall_mem_append.mpr ⟨key.forall_literals nil first, List.forall_mem_append.mpr
        ⟨value.forall_literals nil second, tail.forall_literals nil rest⟩⟩

theorem AddressedStmts.forall_literals {names : Names} {t t' : Bindings} {stmts : List Surface.Stmt}
    {block : Core.Block} (h : AddressedStmts names t stmts block t') (nil : S .nil)
    (written : ∀ stmt ∈ stmts, LiteralsHave S (.stmt stmt)) : ∀ value ∈ literalsInBlock block, S value := by
  cases h with
  | nil => exact List.forall_mem_nil _
  | bind value rest | expr value rest =>
      rcases List.forall_mem_cons.mp written with ⟨first, others⟩
      have here := value.forall_literals nil (first.part List.mem_cons_self)
      exact List.forall_mem_append.mpr ⟨here, rest.forall_literals nil others⟩

end

mutual

theorem AddressedPattern.forall_literals {names names' : Names} {t t' : Bindings} {e : Surface.Expr}
    {p : Core.Pattern} (h : AddressedPattern names t e p names' t') (written : LiteralsHave S (.expr e)) :
    ∀ value ∈ p.literals, S value := by
  cases h with
  | wildcard | same | bind => exact List.forall_mem_nil _
  | literal constant => exact List.forall_mem_singleton.mpr (written.root _ constant)
  | paren single => exact single.forall_literals (written.part List.mem_cons_self)
  | tuple items => exact items.forall_literals fun e member => written.part (List.mem_map_of_mem member)
  | list items => exact items.forall_literals fun e member => written.part (List.mem_map_of_mem member)
  | listTail items tail =>
      rcases everywhere_listTail written with ⟨first, last⟩
      exact List.forall_mem_append.mpr ⟨items.forall_literals first, tail.forall_literals last⟩
  | map entries => exact entries.forall_literals (everywhere_map written)

theorem AddressedPatterns.forall_literals {names names' : Names} {t t' : Bindings} {es : List Surface.Expr}
    {ps : List Core.Pattern} (h : AddressedPatterns names t es ps names' t')
    (written : ∀ e ∈ es, LiteralsHave S (.expr e)) : ∀ value ∈ literalsInPatterns ps, S value := by
  cases h with
  | nil => exact List.forall_mem_nil _
  | cons head tail =>
      rcases List.forall_mem_cons.mp written with ⟨first, rest⟩
      exact List.forall_mem_append.mpr ⟨head.forall_literals first, tail.forall_literals rest⟩

theorem AddressedPatternEntries.forall_literals {names names' : Names} {t t' : Bindings}
    {es : List (Surface.Expr × Surface.Expr)} {ps : List (Literal × Core.Pattern)}
    (h : AddressedPatternEntries names t es ps names' t')
    (written : ∀ entry ∈ es, LiteralsHave S (.expr entry.1) ∧ LiteralsHave S (.expr entry.2)) :
    ∀ value ∈ literalsInPatternEntries ps, S value := by
  cases h with
  | nil => exact List.forall_mem_nil _
  | cons constant head tail =>
      rcases List.forall_mem_cons.mp written with ⟨⟨key, first⟩, rest⟩
      refine List.forall_mem_cons.mpr ⟨key.root _ constant, ?_⟩
      exact List.forall_mem_append.mpr ⟨head.forall_literals first, tail.forall_literals rest⟩

end

/-! ## Literals of functions -/

theorem AddressedOption.forall_literals {names : Names} {t t' : Bindings} {e : Option Surface.Expr}
    {c : Option Core.Expr} (h : AddressedOption names t e c t') (nil : S .nil)
    (written : ∀ inner ∈ e, LiteralsHave S (.expr inner)) : ∀ value ∈ optionLiterals c, S value := by
  cases h with
  | none => exact List.forall_mem_nil _
  | some code => exact code.forall_literals nil (written _ rfl)

section Shapes

variable {P : Surface.Expr → Prop}

/-- The patterns, the guard and the body of a clause stand in its entry. -/
theorem everywhere_of_clauseShape? {entry : Surface.Stmt} {shape : ClauseShape}
    (shaped : clauseShape? entry = some shape) (holds : (Node.stmt entry).Everywhere P) :
    (∀ e ∈ shape.patterns, (Node.expr e).Everywhere P) ∧
      (∀ e ∈ shape.guard, (Node.expr e).Everywhere P) ∧ (Node.expr shape.body).Everywhere P := by
  unfold clauseShape? at shaped
  split at shaped
  case h_1 =>
      cases shaped
      have clause := holds.part List.mem_cons_self
      have head := clause.part List.mem_cons_self
      have body := clause.part (List.mem_cons_of_mem _ List.mem_cons_self)
      exact ⟨fun e member => head.part (List.mem_map_of_mem member), nofun, body⟩
  case h_2 =>
      cases shaped
      have clause := holds.part List.mem_cons_self
      have guarded := clause.part List.mem_cons_self
      have head := guarded.part List.mem_cons_self
      have guard := guarded.part (List.mem_cons_of_mem _ List.mem_cons_self)
      have body := clause.part (List.mem_cons_of_mem _ List.mem_cons_self)
      exact ⟨fun e member => head.part (List.mem_map_of_mem member), by simpa using guard, body⟩
  case h_3 => cases shaped

/-- The default of a parameter stands behind its type. -/
theorem everywhere_of_default? {param : Surface.Param} {value : Surface.Expr}
    (given : default? param = some value) (holds : (Node.param param).Everywhere P) :
    (Node.expr value).Everywhere P := by
  have type := holds.part List.mem_cons_self
  unfold default? at given
  split at given
  next span inner default written =>
    rw [written] at type
    cases given
    exact type.part (List.mem_cons_of_mem _ List.mem_cons_self)
  next => cases given

end Shapes

/-- The default of a parameter is that of its annotation. -/
theorem AddressedParams.exists_default {f : Surface.FunctionDef} {position : Nat} {t t' : Bindings}
    {params : List Surface.Param} {specs : List ParamSpec}
    (h : AddressedParams f position t params specs t') {spec : ParamSpec} (member : spec ∈ specs) :
    ∃ param ∈ params, ∃ t t', AddressedOption [] t (default? param) spec.default t' := by
  induction h with
  | nil => cases member
  | @cons _ t param _ _ _ t₁ _ _ _ _ _ default _ ih =>
      rcases List.mem_cons.mp member with rfl | later
      · exact ⟨param, List.mem_cons_self, t, t₁, default⟩
      · rcases ih later with ⟨other, inParams, here⟩
        exact ⟨other, List.mem_cons_of_mem _ inParams, here⟩

theorem AddressedClause.forall_literals {t t' : Bindings} {shape : ClauseShape} {clause : ClauseSpec}
    (h : AddressedClause t shape clause t') (nil : S .nil)
    (patterns : ∀ e ∈ shape.patterns, LiteralsHave S (.expr e))
    (guard : ∀ e ∈ shape.guard, LiteralsHave S (.expr e)) (body : LiteralsHave S (.expr shape.body)) :
    ∀ value ∈ clause.literals, S value := by
  rcases h.exists_parts with ⟨names, t₁, t₂, c, headCode, guardCode, bodyCode, single⟩
  have last : ∀ value ∈ literalsInBlock clause.body, S value := by
    rw [single]
    simpa [literalsInBlock] using bodyCode.forall_literals nil body
  exact List.forall_mem_append.mpr ⟨headCode.forall_literals patterns,
    List.forall_mem_append.mpr ⟨guardCode.forall_literals nil guard, last⟩⟩

theorem AddressedBody.forall_literals {f : Surface.FunctionDef} {names : Names} {t t' : Bindings}
    {body : FunctionBody} (h : AddressedBody f names t body t') (nil : S .nil)
    (written : ∀ stmt ∈ f.body, LiteralsHave S (.stmt stmt)) : ∀ value ∈ body.literals, S value := by
  cases h with
  | single _ code => exact literalsInBlock_orNil nil (code.forall_literals nil written)
  | clauses shaped code =>
      intro value member
      rcases List.mem_flatMap.mp member with ⟨clause, inClauses, inside⟩
      -- Every clause has a shape, and every shape an entry of the body.
      rcases Compile.exists_mem_of_forall₂ (Compile.forall₂_of_addressedClauses code) inClauses with
        ⟨shape, inShapes, t, t', addressed⟩
      rcases Compile.exists_mem_of_forall₂ (clauseShapes?_eq_some shaped).2 inShapes with
        ⟨entry, inBody, shapeOf⟩
      rcases everywhere_of_clauseShape? shapeOf (written entry inBody) with ⟨patterns, guard, body⟩
      exact addressed.forall_literals nil patterns guard body value inside

theorem AddressedFunction.forall_literals {f : Surface.FunctionDef} {spec : FunctionSpec}
    (h : AddressedFunction f spec) (nil : S .nil) (written : LiteralsHave S (.function f)) :
    ∀ value ∈ spec.literals, S value := by
  rcases h.code with ⟨t, params, body⟩
  refine List.forall_mem_append.mpr ⟨fun value member => ?_, ?_⟩
  · rcases List.mem_flatMap.mp member with ⟨spec', inSpecs, inside⟩
    rcases params.exists_default inSpecs with ⟨param, inParams, t, t', default⟩
    have here := written.part (List.mem_append_left _ (List.mem_map_of_mem inParams))
    exact default.forall_literals nil (fun e given => everywhere_of_default? given here) value inside
  · refine body.forall_literals nil fun stmt member => written.part ?_
    simp [Node.parts, member]

/-! ## Literals of files -/

section Files

variable {defaultModule : String} {file : Surface.SourceFile} {modules : List ModuleSpec}

/-- Every function of a lowered file is one of the file. -/
theorem exists_function_of_mem (lowered : lowerFile defaultModule file = .ok modules) {m : ModuleSpec}
    (inModules : m ∈ modules) {spec : FunctionSpec} (member : spec ∈ m.functions) :
    ∃ item ∈ file.items, ∃ f, (Node.function f).Inside item.node ∧ lowerFunction f = .ok spec := by
  have all := Compile.lowerFile_madeOf lowered
  -- Names of modules are distinct, so what is said of the module of a name is said of this one.
  have found : Compile.moduleNamed? modules m.name = some m :=
    Compile.find?_of_nodup all.distinct inModules
  have made := all.each m.name
  rw [found] at made
  rcases Compile.exists_mem_of_forall₂ made.2.1 member with ⟨f, among, here⟩
  rcases List.mem_filterMap.mp among with ⟨entry, inMembers, isFunction⟩
  cases entry with
  | struct s => cases isFunction
  | function f' =>
      cases isFunction
      rcases List.mem_flatMap.mp inMembers with ⟨item, inItems, inItem⟩
      refine ⟨item, inItems, f, ?_, here⟩
      cases item with
      | member only =>
          dsimp only at inItem
          split at inItem
          · cases List.mem_singleton.mp inItem
            exact .self _
          · cases inItem
      | block definition =>
          dsimp only at inItem
          split at inItem
          · exact .part (List.mem_map_of_mem inItem) (.self _)
          · cases inItem

/-- What holds of `nil` and of everything that is written as a literal in a file holds of all literals in its
lowered functions. -/
theorem literals_lowerFile (lowered : lowerFile defaultModule file = .ok modules) (nil : S .nil)
    (written : ∀ item ∈ file.items, LiteralsHave S item.node) {m : ModuleSpec} (inModules : m ∈ modules)
    {spec : FunctionSpec} (member : spec ∈ m.functions) : ∀ value ∈ spec.literals, S value := by
  rcases exists_function_of_mem lowered inModules member with ⟨item, inItems, f, inside, code⟩
  exact (lowerFunction_addressed code).forall_literals nil ((written item inItems).inside inside)

end Files

end Lowering
end Clausal
