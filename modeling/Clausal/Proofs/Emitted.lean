import Clausal.Proofs.Compiled
import Clausal.Proofs.Lowering.Function

/-!
# What a compiled file holds

The modules of a file follow from its items (`lowerFile_madeOf`): each has the functions among them
in order, and the functions of its struct if it has one.  `CompiledFrom` ties a declaration to the
routine it was compiled from, and `Emitted` forgets the routine.  Every declaration of a compiled
file is emitted (`emitted_of_mem`), and a call finds the declaration of the routine that its name
stands for (`function?_rel`).
-/

namespace Clausal
namespace Compile

open Clausal.Core (Declaration Program ProgramModule)
open Clausal.Lowering (lowerFunction lowerFile updateModule addMember addMembers addItem addItems)
open Clausal.Meaning (membersOf mentions functionsAmong structAmong World Routine opName)
open Outcome

/-- Lowers and compiles a source file. -/
def compileFile (defaultModule : String) (file : Surface.SourceFile) :
    Except CompileError Program := do
  let modules ← lowerFile defaultModule file
  compileModules modules

/-- Compiling a text is reading it and compiling what was read. -/
theorem compileSource_eq_ok_iff {defaultModule : String} {source : List Char} {program : Program} :
    compileSource defaultModule source = .ok program ↔
      ∃ file, Surface.parse source = .ok file ∧ compileFile defaultModule file = .ok program := by
  unfold compileSource lowerSource compileFile
  cases Surface.parse source with
  | error e => simp
  | ok file =>
      simp only [Except.ok.injEq, exists_eq_left']
      cases lowered : lowerFile defaultModule file with
      | error e => simp
      | ok modules => cases compiled : compileModules modules <;> simp [compiled]

/-! ## Modules of a file -/

/-- The module of a name among some modules. -/
def moduleNamed? (modules : List ModuleSpec) (owner : String) : Option ModuleSpec :=
  modules.find? fun m => m.name == owner

theorem moduleNamed?_updateModule {name : String} {span : Span}
    {change : ModuleSpec → Except CompileError ModuleSpec} {modules after : List ModuleSpec}
    (keeps : ∀ m m', change m = .ok m' → m'.name = m.name)
    (h : updateModule name span change modules = .ok after) :
    (∃ m, change ((moduleNamed? modules name).getD ⟨name, [], none, span⟩) = .ok m ∧
      moduleNamed? after name = some m) ∧
      ∀ other, other ≠ name → moduleNamed? after other = moduleNamed? modules other := by
  induction modules generalizing after with
  | nil =>
      rcases map_eq_ok.mp h with ⟨m, changed, rfl⟩
      have sameName : m.name = name := keeps _ _ changed
      refine ⟨⟨m, changed, by simp [moduleNamed?, sameName]⟩, ?_⟩
      intro other differs
      simp [moduleNamed?, sameName, Ne.symm differs]
  | cons first rest ih =>
      simp only [updateModule] at h
      -- Only the first module of the name is changed; the ones before it are passed over.
      by_cases here : first.name = name
      · rw [if_pos (by simpa using here)] at h
        rcases map_eq_ok.mp h with ⟨m, changed, rfl⟩
        have sameName : m.name = name := (keeps _ _ changed).trans here
        refine ⟨⟨m, ?_, by simp [moduleNamed?, sameName]⟩, ?_⟩
        · simpa [moduleNamed?, here] using changed
        · intro other differs
          simp [moduleNamed?, sameName, here, Ne.symm differs]
      · rw [if_neg (by simpa using here)] at h
        rcases map_eq_ok.mp h with ⟨others, changed, rfl⟩
        rcases ih changed with ⟨⟨m, made, found⟩, kept⟩
        refine ⟨⟨m, ?_, ?_⟩, ?_⟩
        · simpa [moduleNamed?, here] using made
        · simpa [moduleNamed?, here] using found
        · intro other differs
          have tail := kept other differs
          simp only [moduleNamed?, List.find?_cons] at tail ⊢
          rw [tail]

/-- Changing a module keeps the names of all modules, and may add the name at the end. -/
theorem names_updateModule {name : String} {span : Span}
    {change : ModuleSpec → Except CompileError ModuleSpec} {modules after : List ModuleSpec}
    (keeps : ∀ m m', change m = .ok m' → m'.name = m.name)
    (h : updateModule name span change modules = .ok after) :
    after.map (·.name) = if name ∈ modules.map (·.name) then modules.map (·.name)
      else modules.map (·.name) ++ [name] := by
  induction modules generalizing after with
  | nil =>
      rcases map_eq_ok.mp h with ⟨m, changed, rfl⟩
      simp [keeps _ _ changed]
  | cons first rest ih =>
      simp only [updateModule] at h
      by_cases here : first.name = name
      · rw [if_pos (by simpa using here)] at h
        rcases map_eq_ok.mp h with ⟨m, changed, rfl⟩
        simp [keeps _ _ changed, here]
      · rw [if_neg (by simpa using here)] at h
        rcases map_eq_ok.mp h with ⟨others, changed, rfl⟩
        rw [List.map_cons, ih changed, List.map_cons]
        simp only [List.mem_cons, Ne.symm here, false_or]
        split <;> rfl

/-- A module as it follows from its items: the functions among them in order, and a struct if there
is one.  A module without items is there exactly if it is mentioned. -/
def MadeOf (members : List Surface.Member) (mentioned : Bool) : Option ModuleSpec → Prop
  | none => members = [] ∧ mentioned = false
  | some m => mentioned = true ∧
      List.Forall₂ (fun f spec => lowerFunction f = .ok spec) (functionsAmong members) m.functions ∧
      m.schema.isSome = structAmong members

/-- A module that is not there yet is an empty one. -/
theorem MadeOf.getD {members : List Surface.Member} {mentioned : Bool} {found : Option ModuleSpec}
    (h : MadeOf members mentioned found) (name : String) (span : Span) :
    MadeOf members true (some (found.getD ⟨name, [], none, span⟩)) := by
  cases found with
  | none =>
      rcases h with ⟨rfl, _⟩
      exact ⟨rfl, .nil, rfl⟩
  | some m => exact ⟨rfl, h.2⟩

theorem functionsAmong_append (members more : List Surface.Member) :
    functionsAmong (members ++ more) = functionsAmong members ++ functionsAmong more :=
  List.filterMap_append

theorem structAmong_append (members more : List Surface.Member) :
    structAmong (members ++ more) = (structAmong members || structAmong more) :=
  List.any_append

/-- Every module follows from its items, and no two have the same name. -/
structure AllMadeOf (members : String → List Surface.Member) (mentioned : String → Bool)
    (modules : List ModuleSpec) : Prop where
  distinct : (modules.map (·.name)).Nodup
  each : ∀ owner, MadeOf (members owner) (mentioned owner) (moduleNamed? modules owner)

variable {members : String → List Surface.Member} {mentioned : String → Bool}
variable {modules after : List ModuleSpec}

/-- Changing one module as its new items ask for keeps every module what its items make of it. -/
theorem AllMadeOf.update {name : String} {span : Span}
    {change : ModuleSpec → Except CompileError ModuleSpec} (h : AllMadeOf members mentioned modules)
    (more : List Surface.Member) (keeps : ∀ m m', change m = .ok m' → m'.name = m.name)
    (step : ∀ m m', MadeOf (members name) true (some m) → change m = .ok m' →
      MadeOf (members name ++ more) true (some m'))
    (updated : updateModule name span change modules = .ok after) :
    AllMadeOf (fun owner => members owner ++ if name == owner then more else [])
      (fun owner => mentioned owner || name == owner) after := by
  rcases moduleNamed?_updateModule keeps updated with ⟨⟨m, changed, found⟩, kept⟩
  refine ⟨?_, ?_⟩
  · rw [names_updateModule keeps updated]
    split
    next => exact h.distinct
    next fresh => exact List.nodup_append.mpr ⟨h.distinct, by simp, by grind⟩
  · -- The changed module has the new items as well; of the others neither side changed.
    intro owner
    by_cases same : name = owner
    · subst same
      have made := step _ _ ((h.each name).getD name span) changed
      simpa [found] using made
    · have differs : (name == owner) = false := by simpa using same
      simpa [kept owner (Ne.symm same), differs] using h.each owner

theorem addMember_madeOf {owner : String} {span : Span} {member : Surface.Member}
    (h : AllMadeOf members mentioned modules)
    (added : addMember owner span modules member = .ok after) :
    AllMadeOf (fun name => members name ++ if owner == name then [member] else [])
      (fun name => mentioned name || owner == name) after := by
  cases member with
  | function f =>
      rcases bind_eq_ok.mp added with ⟨spec, lowered, updated⟩
      refine h.update [.function f] ?_ ?_ updated
      · rintro m m' ⟨⟩
        rfl
      · rintro m m' ⟨_, functions, schema⟩ ⟨⟩
        refine ⟨rfl, ?_, ?_⟩
        · rw [functionsAmong_append]
          exact List.rel_append functions (.cons lowered .nil)
        · rw [structAmong_append, schema]
          simp [structAmong]
  | struct s =>
      -- A second struct is refused, so a module that takes one had none before.
      rcases bind_eq_ok.mp added with ⟨schema, _, updated⟩
      refine h.update [.struct s] ?_ ?_ updated
      · intro m m' changed
        split at changed
        next => cases changed
        next =>
          cases changed
          rfl
      · intro m m' made changed
        split at changed
        next => cases changed
        next =>
          cases changed
          refine ⟨rfl, ?_, ?_⟩
          · rw [functionsAmong_append]
            simpa [functionsAmong] using made.2.1
          · simp [structAmong]

theorem addMembers_madeOf {owner : String} {span : Span} {more : List Surface.Member}
    (h : AllMadeOf members mentioned modules)
    (added : addMembers owner span modules more = .ok after) :
    AllMadeOf (fun name => members name ++ if owner == name then more else [])
      (fun name => mentioned name || (owner == name && !more.isEmpty)) after := by
  induction more generalizing members mentioned modules with
  | nil =>
      cases added
      exact ⟨h.distinct, fun name => by simpa using h.each name⟩
  | cons member more ih =>
      rcases bind_eq_ok.mp added with ⟨between, first, rest⟩
      have made := ih (addMember_madeOf h first) rest
      refine ⟨made.distinct, ?_⟩
      intro name
      have here := made.each name
      -- The first item and the others are added to the same module, or neither is added to the one in
      -- question.
      cases same : owner == name with
      | true => simpa [same] using here
      | false => simpa [same] using here

theorem addItem_madeOf {defaultModule : String} {item : Surface.Item}
    (h : AllMadeOf members mentioned modules)
    (added : addItem defaultModule modules item = .ok after) :
    AllMadeOf (fun name => members name ++ membersOf defaultModule name [item])
      (fun name => mentioned name || mentions defaultModule name [item]) after := by
  cases item with
  | member member =>
      have made := addMember_madeOf h added
      exact ⟨made.distinct, fun name => by simpa [membersOf, mentions] using made.each name⟩
  | block definition =>
      -- The last step puts a module there even if the block has no members.
      rcases bind_eq_ok.mp added with ⟨between, inside, mention⟩
      have filled := addMembers_madeOf h inside
      have made := filled.update [] (fun m m' same => by cases same; rfl)
        (fun m m' here same => by cases same; simpa using here) mention
      refine ⟨made.distinct, ?_⟩
      intro name
      have here := made.each name
      by_cases same : definition.name = name
      · simpa [membersOf, mentions, same] using here
      · have differs : (definition.name == name) = false := by simpa using same
        simpa [membersOf, mentions, same, differs] using here

theorem addItems_madeOf {defaultModule : String} {items : List Surface.Item}
    (h : AllMadeOf members mentioned modules)
    (added : addItems defaultModule modules items = .ok after) :
    AllMadeOf (fun name => members name ++ membersOf defaultModule name items)
      (fun name => mentioned name || mentions defaultModule name items) after := by
  -- The items before are part of the invariant, so that every step adds to the end of both lists.
  induction items generalizing members mentioned modules with
  | nil =>
      cases added
      exact ⟨h.distinct, fun name => by simpa [membersOf, mentions] using h.each name⟩
  | cons item items ih =>
      rcases bind_eq_ok.mp added with ⟨between, first, rest⟩
      have made := ih (addItem_madeOf h first) rest
      refine ⟨made.distinct, ?_⟩
      intro name
      simpa [membersOf, mentions, List.append_assoc, Bool.or_assoc] using made.each name

/-- The modules of a file follow from its items. -/
theorem lowerFile_madeOf {defaultModule : String} {file : Surface.SourceFile}
    (h : lowerFile defaultModule file = .ok modules) :
    AllMadeOf (fun name => membersOf defaultModule name file.items)
      (fun name => mentions defaultModule name file.items) modules := by
  have start : AllMadeOf (fun _ => []) (fun _ => false) [] :=
    ⟨List.nodup_nil, fun _ => ⟨rfl, rfl⟩⟩
  have made := addItems_madeOf start h
  exact ⟨made.distinct, fun name => by simpa using made.each name⟩

/-! ## Routines -/

/-- The function of a struct for a record operation. -/
def opSpec (owner : String) : Core.RecordOp → FunctionSpec
  | .new => recordFunction "new" [⟨"mapping", .any, some (.map [])⟩] .selfType .new owner
  | .validate => recordFunction "validate" [⟨"mapping", .any, none⟩] .any .validate owner
  | .update =>
      recordFunction "update" [⟨"record", .selfType, none⟩, ⟨"mapping", .any, none⟩] .any .update
        owner

/-- The declaration of a function of a struct. -/
def opDecl (owner : String) (op : Core.RecordOp) : Declaration :=
  let spec := opSpec owner op
  declaration spec
    [{ patterns := spec.params.map fun p => .bind p.slot
       guard := none
       body := [.expr (.record op owner (spec.params.map fun p => .var p.slot))] }]

theorem compileFunction_opSpec {owner : String} {op : Core.RecordOp} {decl : Declaration}
    (h : compileFunction owner (opSpec owner op) = .ok decl) : decl = opDecl owner op := by
  cases op <;> cases h <;> rfl

/-- The declaration that the compiler gives a module for a routine of it. -/
inductive CompiledFrom (owner : String) : Routine → Declaration → Prop where
  | written {f spec decl} (lowered : lowerFunction f = .ok spec)
      (compiled : compileFunction owner spec = .ok decl) : CompiledFrom owner (.written f) decl
  | record {op decl} (compiled : compileFunction owner (opSpec owner op) = .ok decl) :
      CompiledFrom owner (.record op) decl

/-- A declaration that the compiler gives a module. -/
def Emitted (owner : String) (decl : Declaration) : Prop :=
  ∃ routine, CompiledFrom owner routine decl

def routineName : Routine → String
  | .written f => f.name
  | .record op => opName op

/-- What can be called in a module with these items. -/
def routinesOf (members : List Surface.Member) : List Routine :=
  (if structAmong members then [Core.RecordOp.new, .validate, .update].map .record else [])
    ++ (functionsAmong members).map .written

theorem routine?_eq (world : World) (owner name : String) :
    Meaning.routine? world owner name
      = (routinesOf (world.members owner)).find? fun r => routineName r == name := by
  unfold Meaning.routine? routinesOf
  have written : ∀ fs : List Surface.FunctionDef,
      (fs.map Routine.written).find? (fun r => routineName r == name)
        = (fs.find? fun f => f.name == name).map Routine.written := by
    intro fs
    rw [List.find?_map]
    rfl
  cases structAmong (world.members owner) with
  | false => simp [written]
  | true =>
      -- The record operations stand in front, so they are found first.
      have record : ([Core.RecordOp.new, .validate, .update].map Routine.record).find?
          (fun r => routineName r == name) = (Meaning.opNamed? name).map Routine.record := by
        rw [List.find?_map]
        rfl
      rw [if_pos rfl, if_pos rfl, List.find?_append, record, written]
      cases Meaning.opNamed? name <;> rfl

/-- The specification a routine is compiled through. -/
def SpecOf (owner : String) : Routine → FunctionSpec → Prop
  | .written f, spec => lowerFunction f = .ok spec
  | .record op, spec => spec = opSpec owner op

theorem SpecOf.name_eq {owner : String} {routine : Routine} {spec : FunctionSpec}
    (h : SpecOf owner routine spec) : routineName routine = spec.name := by
  cases routine with
  | written f => exact (Lowering.lowerFunction_addressed h).name.symm
  | record op =>
      cases h
      cases op <;> rfl

theorem SpecOf.compiledFrom {owner : String} {routine : Routine} {spec : FunctionSpec}
    {decl : Declaration} (h : SpecOf owner routine spec)
    (compiled : compileFunction owner spec = .ok decl) : CompiledFrom owner routine decl := by
  cases routine with
  | written f => exact .written h compiled
  | record op =>
      cases h
      exact .record compiled

theorem CompiledFrom.exists_spec {owner : String} {routine : Routine} {decl : Declaration}
    (h : CompiledFrom owner routine decl) :
    ∃ spec, SpecOf owner routine spec ∧ compileFunction owner spec = .ok decl := by
  cases h with
  | written lowered compiled => exact ⟨_, lowered, compiled⟩
  | record compiled => exact ⟨_, rfl, compiled⟩

theorem CompiledFrom.name_eq {owner : String} {routine : Routine} {decl : Declaration}
    (h : CompiledFrom owner routine decl) : routineName routine = decl.name := by
  rcases h.exists_spec with ⟨spec, source, compiled⟩
  calc routineName routine = spec.name := source.name_eq
    _ = decl.name := (compileFunction_name compiled).symm

/-- The functions of a module are specified by its routines. -/
theorem specs_of_madeOf {members : List Surface.Member} {mentioned : Bool} {m : ModuleSpec}
    (h : MadeOf members mentioned (some m)) :
    List.Forall₂ (SpecOf m.name) (routinesOf members) (moduleFunctions m) := by
  rcases h with ⟨_, functions, schema⟩
  have written : List.Forall₂ (SpecOf m.name) ((functionsAmong members).map Routine.written)
      m.functions := List.forall₂_map_left_iff.mpr functions
  unfold routinesOf moduleFunctions
  cases defined : m.schema with
  | none =>
      rw [defined] at schema
      simpa [← schema] using written
  | some s =>
      rw [defined] at schema
      have records : List.Forall₂ (SpecOf m.name)
          ([Core.RecordOp.new, .validate, .update].map Routine.record) (recordFunctions m.name) :=
        .cons rfl (.cons rfl (.cons rfl .nil))
      -- The functions of a struct stand before the written ones, as they do among the routines.
      rw [← schema]
      exact List.rel_append records written

/-- A compiled module: a declaration for each of its routines, no two of which share a name. -/
structure ModuleOf (members : List Surface.Member) (compiled : ProgramModule) : Prop where
  declarations : List.Forall₂ (CompiledFrom compiled.name) (routinesOf members) compiled.functions
  distinct : ((routinesOf members).map routineName).Nodup

theorem moduleOf_of_madeOf {members : List Surface.Member} {mentioned : Bool} {m : ModuleSpec}
    {compiled : ProgramModule} (h : MadeOf members mentioned (some m))
    (made : compileModule m = .ok compiled) : ModuleOf members compiled := by
  rcases compileModule_functions made with ⟨name, functions, distinct⟩
  have specs := specs_of_madeOf h
  refine ⟨?_, ?_⟩
  · rw [name]
    exact forall₂_comp specs functions fun _ _ _ source here => source.compiledFrom here
  · have names : (routinesOf members).map routineName = (moduleFunctions m).map (·.name) :=
      List.forall₂_eq_eq_eq ▸ List.rel_map (fun _ _ source => source.name_eq) specs
    rw [names]
    exact distinct

/-! ## Programs -/

section Programs

variable {defaultModule : String} {file : Surface.SourceFile} {program : Program}

/-- The modules of a compiled file are those that its items mention, each made of its items. -/
theorem module?_cases (h : compileFile defaultModule file = .ok program) (owner : String) :
    match program.module? owner with
    | none => membersOf defaultModule owner file.items = [] ∧
        mentions defaultModule owner file.items = false
    | some compiled => mentions defaultModule owner file.items = true ∧ compiled.name = owner ∧
        ModuleOf (membersOf defaultModule owner file.items) compiled := by
  rcases bind_eq_ok.mp h with ⟨modules, lowered, compiled⟩
  have made := (lowerFile_madeOf lowered).each owner
  -- Compiling keeps the order and the names of the modules, so a name finds its own module.
  have found := find?_rel (compileModules_forall₂ compiled)
    (p := fun m => m.name == owner) (q := fun m => m.name == owner)
    fun m compiled here => by rw [(compileModule_functions here).1]
  change Option.Rel _ (moduleNamed? modules owner) (program.module? owner) at found
  cases there : moduleNamed? modules owner with
  | none =>
      rw [there] at made found
      cases emitted : program.module? owner with
      | none => exact made
      | some other =>
          rw [emitted] at found
          cases found
  | some m =>
      rw [there] at made found
      cases emitted : program.module? owner with
      | none =>
          rw [emitted] at found
          cases found
      | some other =>
          rw [emitted] at found
          rcases found with ⟨here⟩
          have named : other.name = owner := by simpa using List.find?_some emitted
          exact ⟨made.1, named, moduleOf_of_madeOf made here⟩

theorem isSome_module? (h : compileFile defaultModule file = .ok program) (owner : String) :
    (program.module? owner).isSome = mentions defaultModule owner file.items := by
  have cases := module?_cases h owner
  cases found : program.module? owner with
  | none =>
      rw [found] at cases
      exact cases.2.symm
  | some compiled =>
      rw [found] at cases
      exact cases.1.symm

/-- Every module of a compiled file is compiled from one that follows from its items. -/
theorem madeOf_of_mem (h : compileFile defaultModule file = .ok program) {m : ProgramModule}
    (inProgram : m ∈ program.modules) :
    ∃ spec, compileModule spec = .ok m ∧
      MadeOf (membersOf defaultModule m.name file.items)
        (mentions defaultModule m.name file.items) (some spec) := by
  rcases bind_eq_ok.mp h with ⟨modules, lowered, compiled⟩
  rcases exists_mem_of_forall₂ (compileModules_forall₂ compiled) inProgram with
    ⟨spec, inModules, made⟩
  have all := lowerFile_madeOf lowered
  -- Names of modules are distinct, so looking for the name of a module finds that module.
  have found : moduleNamed? modules spec.name = some spec :=
    find?_of_nodup all.distinct inModules
  have itself := all.each spec.name
  rw [found, ← (compileModule_functions made).1] at itself
  exact ⟨spec, made, itself⟩

/-- Every declaration of a compiled file is emitted. -/
theorem emitted_of_mem (h : compileFile defaultModule file = .ok program) {m : ProgramModule}
    (inProgram : m ∈ program.modules) {decl : Declaration} (member : decl ∈ m.functions) :
    Emitted m.name decl := by
  rcases madeOf_of_mem h inProgram with ⟨spec, made, itself⟩
  have declarations := (moduleOf_of_madeOf itself made).declarations
  rcases exists_mem_of_forall₂ declarations member with ⟨routine, _, here⟩
  exact ⟨routine, here⟩

theorem emitted_of_function? (h : compileFile defaultModule file = .ok program)
    {owner name : String} {decl : Declaration} (found : program.function? owner name = some decl) :
    Emitted owner decl := by
  rcases Option.bind_eq_some_iff.mp found with ⟨m, inProgram, inModule⟩
  have named : m.name = owner := by simpa using List.find?_some inProgram
  have emitted := emitted_of_mem h (List.mem_of_find?_eq_some inProgram)
    (List.mem_of_find?_eq_some inModule)
  rwa [named] at emitted

/-- A call finds the declaration of the routine that the name stands for. -/
theorem function?_rel (h : compileFile defaultModule file = .ok program) (world : World)
    (sameFile : world.file = file) (sameDefault : world.defaultModule = defaultModule)
    (owner name : String) :
    Option.Rel (CompiledFrom owner) (Meaning.routine? world owner name)
      (program.function? owner name) := by
  subst sameFile sameDefault
  have cases := module?_cases h owner
  rw [routine?_eq]
  -- Routines and declarations stand in the same order under the same names.
  unfold Program.function? World.members
  cases found : program.module? owner with
  | none =>
      rw [found] at cases
      rw [cases.1]
      exact .none
  | some compiled =>
      rw [found] at cases
      rcases cases with ⟨_, rfl, made⟩
      refine find?_rel made.declarations ?_
      intro routine decl here
      rw [here.name_eq]

/-- A function that is written in a module is what its name stands for. -/
theorem routine?_written (h : compileFile defaultModule file = .ok program) (world : World)
    (sameFile : world.file = file) (sameDefault : world.defaultModule = defaultModule)
    {owner : String} {f : Surface.FunctionDef}
    (member : f ∈ functionsAmong (membersOf defaultModule owner file.items)) :
    Meaning.routine? world owner f.name = some (.written f) := by
  subst sameFile sameDefault
  have cases := module?_cases h owner
  rw [routine?_eq]
  -- No two routines of a compiled module share a name, so the first of the name is this one.
  have inRoutines : Routine.written f ∈ routinesOf (world.members owner) :=
    List.mem_append_right _ (List.mem_map_of_mem member)
  cases found : program.module? owner with
  | none =>
      rw [found] at cases
      rw [cases.1] at member
      cases member
  | some compiled =>
      rw [found] at cases
      exact find?_of_nodup cases.2.2.distinct inRoutines

end Programs

end Compile
end Clausal
