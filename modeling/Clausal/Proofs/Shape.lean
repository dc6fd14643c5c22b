import Clausal.Proofs.Emitted
import Clausal.Proofs.Structs

/-!
# The shape of compiled programs

A file fixes the outline of its program before any code is looked at: which modules there are and
in which order (`firstMentions`), which functions each of them has, and how many implementations
each function has.  Blocks of one name may be scattered over the file; their items are gathered in
the order of the source.

* `names_compileFile`: modules stand in the order in which the items first mention them.
* `CompiledFrom.coherent`: the parts of a declaration agree on its name and on its arity.
* `declares_of_compiledFrom`: a function is declared once, with one implementation for a block and
  one for each clause otherwise.
* `compiled_shape`: the outline of the whole program, and the names that no module may have twice.
-/

namespace Clausal
namespace Compile

open Clausal.Core (Declaration Implementation Program ProgramModule)
open Clausal.Lowering (lowerFile updateModule addMember addMembers addItem addItems clauseShape?
  clauseShapes? AddressedClause AddressedClauses AddressedStmts AddressedBody AddressedParams)
open Clausal.Meaning (membersOf functionsAmong structAmong Routine)
open Outcome

/-! ## Order of modules -/

/-- The module that an item of a file belongs to. -/
def ownerOf (defaultModule : String) : Surface.Item → String
  | .block definition => definition.name
  | .member _ => defaultModule

/-- The modules of a file in the order in which its items first mention them. -/
def firstMentions (defaultModule : String) (items : List Surface.Item) : List String :=
  (items.map (ownerOf defaultModule)).eraseDups

/-- Some names and one that may be among them. -/
def withName (names : List String) (name : String) : List String :=
  if name ∈ names then names else names ++ [name]

theorem withName_self (names : List String) (name : String) :
    withName (withName names name) name = withName names name := by
  unfold withName
  by_cases known : name ∈ names
  · simp [known]
  · simp [known]

/-- Adding names one by one keeps the first occurrence of each. -/
theorem foldl_withName (names more : List String) :
    more.foldl withName names.eraseDups = (names ++ more).eraseDups := by
  induction more generalizing names with
  | nil => simp
  | cons name more ih =>
      have step : withName names.eraseDups name = (names ++ [name]).eraseDups := by
        rw [List.eraseDups_append]
        by_cases known : name ∈ names
        · simp [withName, known, List.removeAll]
        · simp [withName, known, List.removeAll, List.eraseDups_cons]
      rw [List.foldl_cons, step, ih, List.append_assoc, List.singleton_append]

section Order

variable {modules after : List ModuleSpec}

theorem names_addMember {owner : String} {span : Span} {member : Surface.Member}
    (added : addMember owner span modules member = .ok after) :
    after.map (·.name) = withName (modules.map (·.name)) owner := by
  cases member with
  | function f =>
      rcases bind_eq_ok.mp added with ⟨spec, _, updated⟩
      refine names_updateModule ?_ updated
      rintro m m' ⟨⟩
      rfl
  | struct s =>
      rcases bind_eq_ok.mp added with ⟨schema, _, updated⟩
      refine names_updateModule ?_ updated
      intro m m' changed
      split at changed
      next => cases changed
      next =>
        cases changed
        rfl

theorem names_addMembers {owner : String} {span : Span} {more : List Surface.Member}
    (added : addMembers owner span modules more = .ok after) :
    after.map (·.name) = if more = [] then modules.map (·.name)
      else withName (modules.map (·.name)) owner := by
  induction more generalizing modules with
  | nil =>
      cases added
      rfl
  | cons member more ih =>
      rcases bind_eq_ok.mp added with ⟨between, first, rest⟩
      have tail := ih rest
      rw [names_addMember first] at tail
      rw [tail, if_neg (List.cons_ne_nil member more)]
      -- After the first item the module is there, and the others find it.
      split
      next => rfl
      next => exact withName_self _ _

theorem names_addItem {defaultModule : String} {item : Surface.Item}
    (added : addItem defaultModule modules item = .ok after) :
    after.map (·.name) = withName (modules.map (·.name)) (ownerOf defaultModule item) := by
  cases item with
  | member member => exact names_addMember added
  | block definition =>
      rcases bind_eq_ok.mp added with ⟨between, inside, mention⟩
      have mentioned : after.map (·.name) = withName (between.map (·.name)) definition.name := by
        refine names_updateModule ?_ mention
        rintro m m' ⟨⟩
        rfl
      rw [mentioned, names_addMembers inside]
      split
      next => rfl
      next => exact withName_self _ _

theorem names_addItems {defaultModule : String} {items : List Surface.Item}
    (added : addItems defaultModule modules items = .ok after) :
    after.map (·.name)
      = (items.map (ownerOf defaultModule)).foldl withName (modules.map (·.name)) := by
  induction items generalizing modules with
  | nil =>
      cases added
      rfl
  | cons item items ih =>
      rcases bind_eq_ok.mp added with ⟨between, first, rest⟩
      rw [ih rest, names_addItem first, List.map_cons, List.foldl_cons]

/-- The modules of a program stand in the order in which the items of the file mention them. -/
theorem names_compileFile {defaultModule : String} {file : Surface.SourceFile} {program : Program}
    (h : compileFile defaultModule file = .ok program) :
    program.modules.map (·.name) = firstMentions defaultModule file.items := by
  rcases bind_eq_ok.mp h with ⟨modules, lowered, compiled⟩
  calc program.modules.map (·.name)
      = modules.map (·.name) := map_name_of_forall₂ (compileModules_forall₂ compiled)
    _ = (file.items.map (ownerOf defaultModule)).foldl withName [] := names_addItems lowered
    _ = firstMentions defaultModule file.items := foldl_withName [] _

end Order

/-! ## Declarations -/

/-- The parts of a declaration agree on its name and on the number of its parameters, and there is
something to call. -/
structure Coherent (decl : Declaration) : Prop where
  signatureName : decl.signature.name = decl.name
  forwardName : decl.forward.name = decl.name
  arity : decl.signature.params.length = decl.forward.arity
  implemented : decl.implementations ≠ []
  patterns : ∀ implementation ∈ decl.implementations,
    implementation.patterns.length = decl.forward.arity

/-- Whether a body is a list of clauses; every other body is a block. -/
def IsClauseBody (body : List Surface.Stmt) : Prop :=
  body ≠ [] ∧ ∀ entry ∈ body, (clauseShape? entry).isSome = true

/-- The implementation of an entry that is a clause: the patterns, the guard and the body of that
clause, with slots in the place of names. -/
def ImplementsClause (entry : Surface.Stmt) (implementation : Implementation) : Prop :=
  ∃ shape clause t t', clauseShape? entry = some shape ∧ AddressedClause t shape clause t' ∧
    implementation = ⟨clause.patterns, clause.guard, clause.body⟩

/-- The implementation of a body that is a block, which ends with the code of that block. -/
def ImplementsBlock (body : List Surface.Stmt) (implementation : Implementation) : Prop :=
  ∃ names t code t', AddressedStmts names t body code t' ∧
    Lowering.orNil code <:+ implementation.body

/-- The implementations of a body: one of a block, and one for each of its clauses in order. -/
inductive ImplementsBody (body : List Surface.Stmt) : List Implementation → Prop where
  | block {implementation} (single : ¬ IsClauseBody body)
      (code : ImplementsBlock body implementation) : ImplementsBody body [implementation]
  | clauses {implementations} (made : IsClauseBody body)
      (each : List.Forall₂ ImplementsClause body implementations) :
      ImplementsBody body implementations

/-- The declaration of a written function. -/
structure Declares (f : Surface.FunctionDef) (decl : Declaration) : Prop where
  name : decl.name = f.name
  params : decl.forward.params.map (·.name) = f.params.map (·.name)
  body : ImplementsBody f.body decl.implementations

theorem not_isClauseBody {body : List Surface.Stmt} (h : clauseShapes? body = none) :
    ¬ IsClauseBody body := by
  rintro ⟨filled, each⟩
  have all : Meaning.isClauseList body = true := by
    simp only [Meaning.isClauseList, Bool.and_eq_true, Bool.not_eq_true', List.isEmpty_eq_false_iff,
      List.all_eq_true]
    exact ⟨filled, fun entry member => Lowering.isSome_clauseShape? entry ▸ each entry member⟩
  rw [Lowering.isClauseList_eq, h] at all
  cases all

theorem isClauseBody_of_forall₂ {body : List Surface.Stmt} {shapes : List Lowering.ClauseShape}
    (filled : body ≠ [])
    (each : List.Forall₂ (fun entry shape => clauseShape? entry = some shape) body shapes) :
    IsClauseBody body := by
  refine ⟨filled, ?_⟩
  intro entry member
  rcases exists_mem_of_forall₂ each.flip member with ⟨shape, _, is⟩
  exact Option.isSome_iff_exists.mpr ⟨shape, is⟩

/-- Each clause is addressed over some part of the table. -/
theorem forall₂_of_addressedClauses {t t' : Core.Bindings} {shapes : List Lowering.ClauseShape}
    {clauses : List ClauseSpec} (h : AddressedClauses t shapes clauses t') :
    List.Forall₂ (fun shape clause => ∃ t t', AddressedClause t shape clause t') shapes
      clauses := by
  induction h with
  | nil => exact .nil
  | cons head _ ih => exact .cons ⟨_, _, head⟩ ih

theorem names_of_addressedParams {f : Surface.FunctionDef} {position : Nat}
    {t t' : Core.Bindings} {params : List Surface.Param} {specs : List ParamSpec}
    (h : AddressedParams f position t params specs t') :
    specs.map (·.name) = params.map (·.name) := by
  induction h with
  | nil => rfl
  | cons name _ _ _ _ _ ih => rw [List.map_cons, List.map_cons, name, ih]

/-- Implementations take as many patterns as the function has parameters. -/
theorem CompiledBody.patterns_length {owner : String} {spec : FunctionSpec}
    {compiled : List Implementation} (h : CompiledBody owner spec compiled) :
    ∀ implementation ∈ compiled, implementation.patterns.length = spec.arity := by
  cases h with
  | single => simp [FunctionSpec.arity]
  | clauses _ each =>
      intro implementation member
      rcases exists_mem_of_forall₂ each member with ⟨clause, _, made⟩
      rcases clauseImplementation_eq_ok made with ⟨rfl, count, _⟩
      exact count

/-- The implementations of a function are those of its body. -/
theorem implementsBody_of_compiledBody {owner : String} {f : Surface.FunctionDef}
    {spec : FunctionSpec} {compiled : List Implementation}
    (lowered : Lowering.lowerFunction f = .ok spec) (h : CompiledBody owner spec compiled) :
    ImplementsBody f.body compiled := by
  rcases (Lowering.lowerFunction_addressed lowered).code with ⟨t, _, body⟩
  cases h with
  | @single block guard checks written _ _ =>
      rw [written] at body
      cases body with
      | single shape code =>
          -- The validations of the parameters stand before the block.
          exact .block (not_isClauseBody shape) ⟨_, _, _, _, code, List.suffix_append checks _⟩
  | clauses written each =>
      rw [written] at body
      cases body with
      | clauses shape code =>
          rcases Lowering.clauseShapes?_eq_some shape with ⟨filled, entries⟩
          have shaped := forall₂_comp entries (forall₂_of_addressedClauses code)
            fun entry shape clause is addressed => (⟨shape, is, addressed⟩ :
              ∃ shape, clauseShape? entry = some shape ∧
                ∃ t t', AddressedClause t shape clause t')
          refine .clauses (isClauseBody_of_forall₂ filled entries) ?_
          refine forall₂_comp shaped each ?_
          rintro entry clause implementation ⟨shape, is, t, t', addressed⟩ made
          exact ⟨shape, clause, t, t', is, addressed, (clauseImplementation_eq_ok made).1⟩

theorem ImplementsBody.ne_nil {body : List Surface.Stmt} {implementations : List Implementation}
    (h : ImplementsBody body implementations) : implementations ≠ [] := by
  cases h with
  | block => exact List.cons_ne_nil _ _
  | clauses made each =>
      rintro rfl
      cases each
      exact made.1 rfl

/-- A written function is declared as it stands. -/
theorem declares_of_compiledFrom {owner : String} {f : Surface.FunctionDef} {decl : Declaration}
    (h : CompiledFrom owner (.written f) decl) : Declares f decl := by
  cases h with
  | @written _ spec _ lowered compiled =>
      rcases compileFunction_cases compiled with ⟨implementations, rfl, body⟩
      have addressed := Lowering.lowerFunction_addressed lowered
      rcases addressed.code with ⟨_, params, _⟩
      refine ⟨addressed.name, ?_, implementsBody_of_compiledBody lowered body⟩
      rw [← names_of_addressedParams params]
      simp [declaration]

/-- Every declaration that the compiler gives a module is coherent. -/
theorem CompiledFrom.coherent {owner : String} {routine : Routine} {decl : Declaration}
    (h : CompiledFrom owner routine decl) : Coherent decl := by
  have implemented : decl.implementations ≠ [] := by
    cases routine with
    | written f => exact (declares_of_compiledFrom h).body.ne_nil
    | record op =>
        cases h with
        | record compiled =>
            rw [compileFunction_opSpec compiled]
            exact List.cons_ne_nil _ _
  rcases h.exists_spec with ⟨spec, _, compiled⟩
  rcases compileFunction_cases compiled with ⟨implementations, rfl, body⟩
  refine ⟨rfl, rfl, ?_, implemented, ?_⟩
  · simp [declaration, Core.Forward.arity]
  · intro implementation member
    have count := body.patterns_length implementation member
    simpa [declaration, Core.Forward.arity, FunctionSpec.arity] using count

/-! ## Modules and programs -/

/-- A module made of some items: the functions of its struct, if it has one, then one declaration
for each function in the order of the items. -/
structure Outline (members : List Surface.Member) (m : ProgramModule) : Prop where
  struct : m.record.isSome = structAmong members
  functions : ∃ written, m.functions = (if structAmong members then
      [Core.RecordOp.new, .validate, .update].map (opDecl m.name) else []) ++ written ∧
    List.Forall₂ Declares (functionsAmong members) written
  distinct : (m.functions.map (·.name)).Nodup
  coherent : ∀ decl ∈ m.functions, Coherent decl

/-- The shape of a program that was compiled from a file. -/
structure ShapeOf (defaultModule : String) (file : Surface.SourceFile) (program : Program) :
    Prop where
  order : program.modules.map (·.name) = firstMentions defaultModule file.items
  distinct : (program.modules.map (·.name)).Nodup
  outlines : ∀ m ∈ program.modules, Outline (membersOf defaultModule m.name file.items) m

/-- Items that would declare a name twice in their module: two functions of one name, or a function
with the name of one that the struct brings along. -/
def Clashing (members : List Surface.Member) : Prop :=
  ¬ ((functionsAmong members).map (·.name)).Nodup ∨
    structAmong members = true ∧
      ∃ f ∈ functionsAmong members, f.name ∈ ["new", "validate", "update"]

instance (members : List Surface.Member) : Decidable (Clashing members) :=
  inferInstanceAs (Decidable (_ ∨ _))

/-- The routines of items that clash do not have distinct names. -/
theorem not_nodup_of_clashing {members : List Surface.Member} (h : Clashing members) :
    ¬ ((routinesOf members).map routineName).Nodup := by
  intro distinct
  have written : ((functionsAmong members).map Routine.written).map routineName
      = (functionsAmong members).map (·.name) := by
    rw [List.map_map]
    rfl
  rw [routinesOf, List.map_append, written] at distinct
  rcases List.nodup_append.mp distinct with ⟨_, functions, apart⟩
  rcases h with twice | ⟨struct, f, member, generated⟩
  · exact twice functions
  · rw [if_pos struct] at apart
    exact apart f.name generated f.name (List.mem_map_of_mem member) rfl

theorem isSome_record {m : ModuleSpec} {compiled : ProgramModule}
    (h : compileModule m = .ok compiled) : compiled.record.isSome = m.schema.isSome := by
  have made := compileModule_record h
  unfold moduleRecord at made
  split at made
  next schema written =>
    rcases map_eq_ok.mp made with ⟨definition, _, isRecord⟩
    rw [written, ← isRecord]
    rfl
  next written =>
    rw [written, ← Except.ok.inj made]
    rfl

/-- Declarations of routines: those of the struct first, then those of the functions. -/
theorem functions_of_declarations {owner : String} {members : List Surface.Member}
    {decls : List Declaration}
    (h : List.Forall₂ (CompiledFrom owner) (routinesOf members) decls) :
    ∃ written, decls = (if structAmong members then
        [Core.RecordOp.new, .validate, .update].map (opDecl owner) else []) ++ written ∧
      List.Forall₂ Declares (functionsAmong members) written := by
  have record : ∀ {op decl}, CompiledFrom owner (.record op) decl → decl = opDecl owner op := by
    rintro op decl ⟨⟩
    next compiled => exact compileFunction_opSpec compiled
  have declared : ∀ {written}, List.Forall₂ (CompiledFrom owner)
      ((functionsAmong members).map Routine.written) written →
      List.Forall₂ Declares (functionsAmong members) written := by
    intro written rest
    exact (List.forall₂_map_left_iff.mp rest).imp fun _ _ here => declares_of_compiledFrom here
  unfold routinesOf at h
  cases struct : structAmong members with
  | false =>
      rw [struct] at h
      exact ⟨decls, rfl, declared h⟩
  | true =>
      rw [struct] at h
      -- The routines of a struct stand in front, one for each record operation.
      rcases h with _ | ⟨first, h⟩
      rcases h with _ | ⟨second, h⟩
      rcases h with _ | ⟨third, rest⟩
      rw [record first, record second, record third]
      exact ⟨_, rfl, declared rest⟩

theorem outline_of_mem {defaultModule : String} {file : Surface.SourceFile} {program : Program}
    (h : compileFile defaultModule file = .ok program) {m : ProgramModule}
    (inProgram : m ∈ program.modules) :
    Outline (membersOf defaultModule m.name file.items) m := by
  rcases madeOf_of_mem h inProgram with ⟨spec, compiled, made⟩
  have outline := moduleOf_of_madeOf made compiled
  have names : (routinesOf (membersOf defaultModule m.name file.items)).map routineName
      = m.functions.map (·.name) :=
    List.forall₂_eq_eq_eq ▸ List.rel_map (fun _ _ here => here.name_eq) outline.declarations
  refine ⟨?_, functions_of_declarations outline.declarations, ?_, ?_⟩
  · rw [isSome_record compiled]
    exact made.2.2
  · rw [← names]
    exact outline.distinct
  · intro decl member
    rcases exists_mem_of_forall₂ outline.declarations member with ⟨routine, _, here⟩
    exact here.coherent

/-- Items that clash are in no compiled file. -/
theorem not_compiled_of_clashing {defaultModule owner : String} {file : Surface.SourceFile}
    (h : Clashing (membersOf defaultModule owner file.items)) (program : Program) :
    compileFile defaultModule file ≠ .ok program := by
  intro compiled
  have cases := module?_cases compiled owner
  cases found : program.module? owner with
  | none =>
      -- A module that is not there has no items, and so none that clash.
      rw [found] at cases
      rw [cases.1] at h
      rcases h with twice | ⟨struct, _⟩
      · exact twice List.nodup_nil
      · cases struct
  | some m =>
      rw [found] at cases
      exact not_nodup_of_clashing h cases.2.2.distinct

/-- A source text that is accepted gives a program whose outline is that of the source: modules in
order of first mention, in each the functions of its struct and then one declaration for each of
its functions in order, all of them coherent and with distinct names.  A source text in which the
items of one module clash is refused. -/
theorem compiled_shape (defaultModule : String) (source : List Char) :
    (∀ program, compileSource defaultModule source = .ok program →
      ∃ file, Surface.parse source = .ok file ∧ ShapeOf defaultModule file program) ∧
    ∀ file owner, Surface.parse source = .ok file →
      Clashing (membersOf defaultModule owner file.items) →
      ∃ e, compileSource defaultModule source = .error e := by
  refine ⟨?_, ?_⟩
  · intro program accepted
    rcases compileSource_eq_ok_iff.mp accepted with ⟨file, read, compiled⟩
    refine ⟨file, read, names_compileFile compiled, nodup_moduleNames compiled, ?_⟩
    intro m inProgram
    exact outline_of_mem compiled inProgram
  · intro file owner read clash
    cases outcome : compileSource defaultModule source with
    | error e => exact ⟨e, rfl⟩
    | ok program =>
        rcases compileSource_eq_ok_iff.mp outcome with ⟨other, again, compiled⟩
        rw [read] at again
        cases again
        exact absurd compiled (not_compiled_of_clashing clash program)

/-- A text in which the blocks of one module are scattered:

```
module A { struct { x: N } }
def f(a: any) { a }
module A { def g(n: any) {
  (0) -> 1
  (n) -> n } }
```
-/
def scattered : List Char :=
  ("module A \x7b struct \x7b x: N \x7d \x7d\ndef f(a: any) \x7b a \x7d\n"
    ++ "module A \x7b def g(n: any) \x7b\n(0) -> 1\n(n) -> n \x7d \x7d").toList

/-- A text whose struct brings along a name that is written as well. -/
def clashing : List Char :=
  ("module A \x7b def new(a: any) \x7b a \x7d \x7d\n"
    ++ "module A \x7b struct \x7b x: N \x7d \x7d").toList

theorem compiled_shape_scattered :
    (∃ program file, compileSource "Main" scattered = .ok program ∧
      Surface.parse scattered = .ok file ∧ ShapeOf "Main" file program) ∧
    ∃ file, Surface.parse clashing = .ok file ∧ Clashing (membersOf "Main" "A" file.items) ∧
      ∃ e, compileSource "Main" clashing = .error e := by
  have accepted : (compileSource "Main" scattered).isOk = true := by decide +kernel
  have refused : (match Surface.parse clashing with
      | .ok file => decide (Clashing (membersOf "Main" "A" file.items))
      | .error _ => false) = true := by decide +kernel
  refine ⟨?_, ?_⟩
  · cases compiled : compileSource "Main" scattered with
    | error e => simp [compiled, Except.isOk, Except.toBool] at accepted
    | ok program =>
        rcases (compiled_shape "Main" scattered).1 program compiled with ⟨file, read, shape⟩
        exact ⟨program, file, rfl, read, shape⟩
  · cases read : Surface.parse clashing with
    | error e => simp [read] at refused
    | ok file =>
        have clash : Clashing (membersOf "Main" "A" file.items) := by simpa [read] using refused
        exact ⟨file, rfl, clash, (compiled_shape "Main" clashing).2 file "A" read clash⟩

end Compile
end Clausal
