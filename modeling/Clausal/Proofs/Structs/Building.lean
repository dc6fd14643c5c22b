import Clausal.Proofs.Structs.Acyclic

/-!
# When a machine can be built

Building a machine takes the first struct whose fields all name registered modules, registers it, and
starts over with the others.  Beside this loop stands a description that knows no order:
`Obtainable` names are the registered ones and the structs all of whose fields have obtainable names,
and a struct is `Buildable` when its fields have such names.

* `Underway` is the invariant of the loop: which structs are left, which names are registered, and
  that everything built so far is buildable.
* Where the loop stops, registered and obtainable names are the same (`Underway.obtainable_of_contains`,
  `Underway.contains_of_obtainable`), so what is left are exactly the structs that are not buildable.

Without cycles among the structs, a name is obtainable as soon as every field names a registered module
or a struct.  Main statements: `build_succeeds_exactly` and `build_fault_exact`.  The second also shows
what a failed build reports when the first struct left over waits for another struct.
-/

namespace Clausal

open Clausal.Core (Program ProgramModule RecordDef RecordField)
open Outcome

/-! ## Names of a registry -/

namespace Registry

theorem mem_names_iff {registry : Registry} {name : String} :
    name ∈ registry.names ↔ registry.contains name = true := by
  simp only [names, contains, get?, List.mem_mergeSort, List.lookup_isSome_iff, List.mem_map,
    beq_iff_eq]
  simp only [eq_comm]

theorem contains_insert {registry : Registry} {name other : String} {checker : ValueModule} :
    (registry.insert name checker).contains other = true ↔
      other = name ∨ registry.contains other = true := by
  by_cases same : other = name
  · simp [same, contains, get?_insert_self]
  · simp [same, contains, get?_insert_of_ne registry checker same]

end Registry

namespace Compile

/-- Where structs have the names of their modules, the names of the structs are among those of the
modules, in order. -/
theorem structNames_sublist {modules : List ProgramModule}
    (owned : ∀ m ∈ modules, ∀ definition, m.record = some definition → definition.name = m.name) :
    ((modules.filterMap (·.record)).map (·.name)).Sublist (modules.map (·.name)) := by
  induction modules with
  | nil => exact List.Sublist.refl []
  | cons m rest ih =>
      rw [List.forall_mem_cons] at owned
      have later := ih owned.2
      cases has : m.record with
      | none =>
          rw [List.filterMap_cons_none has]
          exact later.cons _
      | some definition =>
          rw [List.filterMap_cons_some has, List.map_cons, List.map_cons, owned.1 definition has]
          exact later.cons_cons _

theorem nodup_structNames {defaultModule : String} {file : Surface.SourceFile} {program : Program}
    (h : compileFile defaultModule file = .ok program) : (program.records.map (·.name)).Nodup := by
  refine (nodup_moduleNames h).sublist (structNames_sublist ?_)
  rcases bind_eq_ok.mp h with ⟨modules, _, compiled⟩
  intro m member definition has
  rcases exists_mem_of_forall₂ (compileModules_forall₂ compiled) member with ⟨_, _, made⟩
  exact (compileModule_struct made has).1

end Compile

namespace Machine

/-! ## Obtainable names -/

/-- The names under which a module can be had: the registered ones, and the structs all of whose
fields have such names. -/
inductive Obtainable (registry : Registry) (structs : List RecordDef) : String → Prop where
  | registered {name : String} : registry.contains name = true → Obtainable registry structs name
  | struct {definition : RecordDef} : definition ∈ structs →
      (∀ field ∈ definition.fields, Obtainable registry structs field.checker) →
      Obtainable registry structs definition.name

/-- All fields of a struct have obtainable names. -/
def Buildable (registry : Registry) (structs : List RecordDef) (definition : RecordDef) : Prop :=
  ∀ field ∈ definition.fields, Obtainable registry structs field.checker

section Obtaining

variable {registry : Registry} {structs : List RecordDef} {name : String}

/-- An obtainable name is that of a registered module or of a struct. -/
theorem Obtainable.named (obtainable : Obtainable registry structs name) :
    registry.contains name = true ∨ name ∈ structs.map (·.name) := by
  cases obtainable with
  | registered known => exact .inl known
  | struct member _ => exact .inr (List.mem_map_of_mem member)

/-- Without cycles, structs whose fields all name registered modules or structs are obtainable. -/
theorem obtainable_of_named (acyclic : WellFounded (Needs structs))
    (named : ∀ definition ∈ structs, ∀ field ∈ definition.fields,
      registry.contains field.checker = true ∨ field.checker ∈ structs.map (·.name))
    {definition : RecordDef} (member : definition ∈ structs) :
    Obtainable registry structs definition.name := by
  -- The induction goes down the fields that name structs; all other fields are registered.
  generalize outer : definition.name = name
  induction name using acyclic.induction generalizing definition with
  | _ name ih =>
      subst outer
      refine .struct member fun field inFields => ?_
      rcases named definition member field inFields with known | isStruct
      · exact .registered known
      · rcases List.mem_map.mp isStruct with ⟨inner, inStructs, same⟩
        have needed : Needs structs field.checker definition.name :=
          ⟨definition, member, rfl, ⟨field, inFields, rfl⟩, isStruct⟩
        exact ih field.checker needed inStructs same

/-- Without cycles, all structs are buildable exactly if every field names a registered module or a
struct. -/
theorem buildable_iff_named (acyclic : WellFounded (Needs structs)) :
    (∀ definition ∈ structs, Buildable registry structs definition) ↔
      ∀ definition ∈ structs, ∀ field ∈ definition.fields,
        registry.contains field.checker = true ∨ field.checker ∈ structs.map (·.name) := by
  constructor
  · intro buildable definition member field inFields
    exact (buildable definition member field inFields).named
  · intro named definition member field inFields
    rcases named definition member field inFields with known | isStruct
    · exact .registered known
    · rcases List.mem_map.mp isStruct with ⟨inner, inStructs, same⟩
      exact same ▸ obtainable_of_named acyclic named inStructs

end Obtaining

/-! ## What is built and what is left -/

/-- A build of some structs that has come to a registry and some schemas. -/
structure Underway (start : Registry) (structs pending : List RecordDef) (registry : Registry)
    (schemas : List (String × RecordSchema)) : Prop where
  /-- What is left are the structs without a schema, in the order of declaration. -/
  pending_eq : pending = structs.filter fun definition =>
    decide (definition.name ∉ schemas.map Prod.fst)
  contains_iff : ∀ name, registry.contains name = true ↔
    start.contains name = true ∨ name ∈ schemas.map Prod.fst
  /-- A schema is that of a struct, which is buildable. -/
  built : ∀ entry ∈ schemas, ∃ definition ∈ structs, entry.1 = definition.name ∧
    entry.2.name = definition.name ∧
    entry.2.fields.map Prod.fst = definition.fields.map (·.name) ∧
    Buildable start structs definition
  once : (schemas.map Prod.fst).Nodup

namespace Underway

variable {start registry : Registry} {structs pending others : List RecordDef}
  {schemas : List (String × RecordSchema)} {definition : RecordDef} {name : String}

theorem begin (start : Registry) (structs : List RecordDef) :
    Underway start structs structs start [] where
  pending_eq := by simp
  contains_iff := by simp
  built := List.forall_mem_nil _
  once := List.nodup_nil

theorem mem_pending_iff (underway : Underway start structs pending registry schemas) :
    definition ∈ pending ↔ definition ∈ structs ∧ definition.name ∉ schemas.map Prod.fst := by
  rw [underway.pending_eq, List.mem_filter, decide_eq_true_iff]

/-- Registered names are obtainable. -/
theorem obtainable_of_contains (underway : Underway start structs pending registry schemas)
    (known : registry.contains name = true) : Obtainable start structs name := by
  rcases (underway.contains_iff name).mp known with atStart | isBuilt
  · exact .registered atStart
  · rcases List.mem_map.mp isBuilt with ⟨entry, member, rfl⟩
    rcases underway.built entry member with ⟨definition, inStructs, named, -, -, buildable⟩
    exact named ▸ .struct inStructs buildable

/-- Building one more struct keeps the invariant. -/
theorem step (distinct : (structs.map (·.name)).Nodup)
    (underway : Underway start structs pending registry schemas)
    (taken : takeReady? registry pending = some (definition, others)) {schema : RecordSchema}
    (made : RecordSchema.ofDef registry definition = .ok schema) :
    Underway start structs others (registry.insert definition.name schema.toModule)
      ((definition.name, schema) :: schemas) := by
  rcases takeReady?_eq_some taken with ⟨ready, before, after, whole, rfl⟩
  have isPending : definition ∈ pending := by simp [whole]
  have fresh := underway.mem_pending_iff.mp isPending
  refine ⟨?_, ?_, ?_, ?_⟩
  · -- No other struct that is left has the name of the one that is taken.
    have names : (pending.map (·.name)).Nodup := by
      rw [underway.pending_eq]
      exact distinct.sublist (List.filter_sublist.map _)
    have differs : ∀ other ∈ before ++ after, other.name ≠ definition.name := by
      rw [whole, List.map_append, List.map_cons, List.nodup_middle, List.nodup_cons,
        ← List.map_append] at names
      intro other member same
      exact names.1 (same ▸ List.mem_map_of_mem member)
    have kept : (before ++ definition :: after).filter (fun other =>
        decide (other.name ≠ definition.name)) = before ++ after := by
      rw [List.forall_mem_append] at differs
      rw [List.filter_append, List.filter_cons_of_neg (by simp),
        List.filter_eq_self.mpr (by simpa using differs.1),
        List.filter_eq_self.mpr (by simpa using differs.2)]
    rw [← kept, ← whole, underway.pending_eq, List.filter_filter]
    refine List.filter_congr fun other _ => ?_
    rw [Bool.eq_iff_iff]
    simp [not_or]
  · intro name
    rw [Registry.contains_insert, underway.contains_iff, List.map_cons, List.mem_cons]
    tauto
  · refine List.forall_mem_cons.mpr ⟨?_, underway.built⟩
    rcases map_eq_ok.mp made with ⟨fields, bound, rfl⟩
    refine ⟨definition, fresh.1, rfl, rfl, map_fst_of_bindFields bound, ?_⟩
    intro field member
    exact underway.obtainable_of_contains (isReady_iff.mp ready field member)
  · rw [List.map_cons, List.nodup_cons]
    exact ⟨fresh.2, underway.once⟩

/-- Where nothing that is left is ready, obtainable names are registered. -/
theorem contains_of_obtainable (underway : Underway start structs pending registry schemas)
    (stuck : ∀ definition ∈ pending, isReady registry definition = false)
    (obtainable : Obtainable start structs name) : registry.contains name = true := by
  induction obtainable with
  | registered known => exact (underway.contains_iff _).mpr (.inl known)
  | @struct definition member _ ih =>
      -- Its fields are registered, so it would be ready if it were still left.
      have ready : isReady registry definition = true := isReady_iff.mpr ih
      by_contra missing
      have unbuilt : definition.name ∉ schemas.map Prod.fst := fun isBuilt =>
        missing ((underway.contains_iff _).mpr (.inr isBuilt))
      have unready := stuck definition (underway.mem_pending_iff.mpr ⟨member, unbuilt⟩)
      rw [ready] at unready
      cases unready

/-- Where the loop stops, what is left is not buildable. -/
theorem not_buildable (underway : Underway start structs pending registry schemas)
    (stuck : ∀ definition ∈ pending, isReady registry definition = false)
    (left : definition ∈ pending) : ¬ Buildable start structs definition := by
  intro buildable
  have ready : isReady registry definition = true := isReady_iff.mpr fun field member =>
    underway.contains_of_obtainable stuck (buildable field member)
  rw [stuck definition left] at ready
  cases ready

/-- A struct that is not left has been built, so it is buildable. -/
theorem buildable_of_not_mem (distinct : (structs.map (·.name)).Nodup)
    (underway : Underway start structs pending registry schemas) (member : definition ∈ structs)
    (gone : definition ∉ pending) : Buildable start structs definition := by
  have isBuilt : definition.name ∈ schemas.map Prod.fst := by
    by_contra unbuilt
    exact gone (underway.mem_pending_iff.mpr ⟨member, unbuilt⟩)
  rcases List.mem_map.mp isBuilt with ⟨entry, inSchemas, same⟩
  rcases underway.built entry inSchemas with ⟨other, inStructs, named, -, -, buildable⟩
  have equal : other = definition :=
    List.inj_on_of_nodup_map distinct inStructs member (named.symm.trans same)
  exact equal ▸ buildable

/-- Where nothing is left, the schemas are those of the structs, one for each. -/
theorem schemas_perm (distinct : (structs.map (·.name)).Nodup)
    (underway : Underway start structs [] registry schemas) :
    (schemas.map Prod.fst).Perm (structs.map (·.name)) := by
  refine (List.perm_ext_iff_of_nodup underway.once distinct).mpr fun name => ⟨?_, ?_⟩
  · intro isBuilt
    rcases List.mem_map.mp isBuilt with ⟨entry, member, rfl⟩
    rcases underway.built entry member with ⟨definition, inStructs, named, -⟩
    exact named ▸ List.mem_map_of_mem inStructs
  · intro isStruct
    rcases List.mem_map.mp isStruct with ⟨definition, member, rfl⟩
    by_contra unbuilt
    exact absurd (underway.mem_pending_iff.mpr ⟨member, unbuilt⟩) List.not_mem_nil

/-- Where nothing is left, every struct has its schema. -/
theorem exists_schema (distinct : (structs.map (·.name)).Nodup)
    (underway : Underway start structs [] registry schemas) (member : definition ∈ structs) :
    ∃ schema, schemas.lookup definition.name = some schema ∧ schema.name = definition.name ∧
      schema.fields.map Prod.fst = definition.fields.map (·.name) := by
  have isBuilt : definition.name ∈ schemas.map Prod.fst :=
    (underway.schemas_perm distinct).mem_iff.mpr (List.mem_map_of_mem member)
  have found : (schemas.lookup definition.name).isSome = true := by
    rw [List.lookup_isSome_iff]
    rcases List.mem_map.mp isBuilt with ⟨entry, inSchemas, same⟩
    exact ⟨entry, inSchemas, by simp [same]⟩
  rcases Option.isSome_iff_exists.mp found with ⟨schema, here⟩
  have inSchemas : (definition.name, schema) ∈ schemas := by
    rcases List.lookup_eq_some_iff.mp here with ⟨before, after, whole, -⟩
    simp [whole]
  rcases underway.built _ inSchemas with ⟨other, inStructs, named, schemaName, fields, -⟩
  have equal : other = definition := List.inj_on_of_nodup_map distinct inStructs member named.symm
  exact ⟨schema, here, equal ▸ schemaName, equal ▸ fields⟩

end Underway

/-- The end of every build: what is left is not ready, and the machine is built exactly if nothing is
left. -/
theorem exists_end_of_build {program : Program}
    (distinct : (program.records.map (·.name)).Nodup) (registry : Registry) (limit : Nat) :
    ∃ left registry' schemas', Underway registry program.records left registry' schemas' ∧
      (∀ definition ∈ left, isReady registry' definition = false) ∧
      build program registry limit = if left = [] then .ok ⟨program, registry', schemas', limit⟩
        else .error (blockedFault registry' left) :=
  build_run (fun _ _ _ _ _ _ underway taken made => underway.step distinct taken made)
    (Underway.begin registry program.records)

/-! ## Which programs are built -/

/-- Structs of a compiled file are built, in whatever order they come, exactly if every field names a
registered module or a struct.  The machine then knows the modules that were registered and all
structs, with one schema for each struct. -/
theorem build_succeeds_exactly {defaultModule : String} {file : Surface.SourceFile}
    {program reordered : Program} (compiled : Compile.compileFile defaultModule file = .ok program)
    (order : reordered.records.Perm program.records) (registry : Registry) (limit : Nat) :
    ((∃ machine, build reordered registry limit = .ok machine) ↔
      ∀ definition ∈ program.records, ∀ field ∈ definition.fields,
        field.checker ∈ registry.names ∨ field.checker ∈ program.records.map (·.name)) ∧
    ∀ machine, build reordered registry limit = .ok machine →
      (∀ name, name ∈ machine.registry.names ↔
        name ∈ registry.names ∨ name ∈ program.records.map (·.name)) ∧
      (program.records.map (·.name)).Nodup ∧
      (machine.schemas.map Prod.fst).Perm (program.records.map (·.name)) ∧
      ∀ definition ∈ program.records, ∃ schema,
        machine.schemas.lookup definition.name = some schema ∧ schema.name = definition.name ∧
        schema.fields.map Prod.fst = definition.fields.map (·.name) := by
  have distinct := Compile.nodup_structNames compiled
  have distinct' : (reordered.records.map (·.name)).Nodup := (order.map _).nodup_iff.mpr distinct
  have acyclic : WellFounded (Needs reordered.records) :=
    Subrelation.wf (Needs.of_perm order) (Compile.wellFounded_needs compiled)
  have isStruct : ∀ name, name ∈ reordered.records.map (·.name) ↔
      name ∈ program.records.map (·.name) := fun name => (order.map _).mem_iff
  rcases exists_end_of_build distinct' registry limit with
    ⟨left, registry', schemas', underway, stuck, outcome⟩
  refine ⟨?_, ?_⟩
  · -- Nothing is left exactly if everything is buildable.
    have done : (∃ machine, build reordered registry limit = .ok machine) ↔ left = [] := by
      rw [outcome]
      by_cases nothing : left = [] <;> simp [nothing]
    have all : left = [] ↔ ∀ definition ∈ reordered.records,
        Buildable registry reordered.records definition := by
      rw [List.eq_nil_iff_forall_not_mem]
      constructor
      · exact fun gone definition member =>
          underway.buildable_of_not_mem distinct' member (gone definition)
      · exact fun buildable definition member => underway.not_buildable stuck member
          (buildable definition (underway.mem_pending_iff.mp member).1)
    rw [done, all, buildable_iff_named acyclic]
    simp only [isStruct, order.mem_iff, Registry.mem_names_iff]
  · intro machine built
    rw [outcome] at built
    split at built
    next nothing =>
      cases built
      subst nothing
      have schemas := underway.schemas_perm distinct'
      refine ⟨?_, distinct, schemas.trans (order.map _), ?_⟩
      · intro name
        rw [Registry.mem_names_iff, Registry.mem_names_iff, underway.contains_iff, schemas.mem_iff,
          isStruct]
      · intro definition member
        exact underway.exists_schema distinct' (order.mem_iff.mpr member)
    next => cases built

/-- A file of modules that each hold a struct, given by the names of the fields and of their modules. -/
def structFile (structs : List (String × List (String × String))) : Surface.SourceFile :=
  let s := Span.synthetic
  let field (entry : String × String) : Surface.FieldDef := ⟨entry.1, .ident s entry.2, s⟩
  { items := structs.map fun (name, fields) =>
      .block ⟨name, [.struct ⟨fields.map field, s⟩], s⟩
    span := s }

/-- An order comes before the line that it holds. -/
def orderFirst (item : String) : Surface.SourceFile :=
  structFile [("Order", [("line", "Line")]), ("Line", [("item", item)])]

/-- An order comes after the line that it holds. -/
def lineFirst (item : String) : Surface.SourceFile :=
  structFile [("Line", [("item", item)]), ("Order", [("line", "Line")])]

theorem orders_compile :
    ∃ program reordered, Compile.compileFile "Main" (orderFirst "Count") = .ok program ∧
      Compile.compileFile "Main" (lineFirst "Count") = .ok reordered ∧
      program.records = [⟨"Order", [⟨"line", "Line"⟩]⟩, ⟨"Line", [⟨"item", "Count"⟩]⟩] ∧
      reordered.records.Perm program.records :=
  ⟨_, _, rfl, rfl, rfl, .swap ..⟩

/-- An order and its line.  With a module for the item both are built, in either order; without one
neither is. -/
theorem build_succeeds_exactly_order :
    ∃ program reordered, Compile.compileFile "Main" (orderFirst "Count") = .ok program ∧
      Compile.compileFile "Main" (lineFirst "Count") = .ok reordered ∧
      (∃ machine, build program [("Count", .integerRange none none)] 4 = .ok machine ∧
        (machine.schemas.map Prod.fst).Perm ["Order", "Line"]) ∧
      (∃ machine, build reordered [("Count", .integerRange none none)] 4 = .ok machine ∧
        (machine.schemas.map Prod.fst).Perm ["Order", "Line"]) ∧
      ¬ ∃ machine, build reordered [] 4 = .ok machine := by
  rcases orders_compile with ⟨program, reordered, compiled, compiled', records, order⟩
  have structs : program.records.map (·.name) = ["Order", "Line"] := by rw [records]; rfl
  have here := build_succeeds_exactly compiled (.refl program.records)
    [("Count", .integerRange none none)] 4
  have there := build_succeeds_exactly compiled order [("Count", .integerRange none none)] 4
  have without := build_succeeds_exactly compiled order [] 4
  simp only [structs, Registry.mem_names_iff] at here there without
  refine ⟨program, reordered, compiled, compiled', ?_, ?_, ?_⟩
  · rcases here.1.mpr (by rw [records]; decide) with ⟨machine, built⟩
    exact ⟨machine, built, (here.2 machine built).2.2.1⟩
  · rcases there.1.mpr (by rw [records]; decide) with ⟨machine, built⟩
    exact ⟨machine, built, (there.2 machine built).2.2.1⟩
  · rw [without.1, records]
    decide

/-! ## What a failed build reports -/

/-- The first struct that is not buildable, and its first field whose name is not obtainable. -/
def FirstBlocked (registry : Registry) (structs : List RecordDef) (definition : RecordDef)
    (field : RecordField) : Prop :=
  ∃ before after earlier later, structs = before ++ definition :: after ∧
    (∀ other ∈ before, Buildable registry structs other) ∧
    definition.fields = earlier ++ field :: later ∧
    (∀ other ∈ earlier, Obtainable registry structs other.checker) ∧
    ¬ Obtainable registry structs field.checker

theorem blockedFault_cons {registry : Registry} {definition : RecordDef} {rest : List RecordDef}
    {field : RecordField} (found : definition.fields.find? (fun field =>
      !registry.contains field.checker) = some field) :
    blockedFault registry (definition :: rest) =
      if (definition :: rest).any (fun other => other.name == field.checker) then
        .typeError ("struct " ++ definition.name ++ " cannot be built: its fields lead back to "
          ++ field.checker)
      else .unknownModule field.checker := by
  simp only [blockedFault, firstMissing?, List.findSome?_cons, found, Option.map_some,
    Option.getD_some]

/-- Where the loop stops before all is built, it reports the first field that blocks. -/
theorem Underway.blockedFault_eq {start registry : Registry} {structs left : List RecordDef}
    {schemas : List (String × RecordSchema)} (distinct : (structs.map (·.name)).Nodup)
    (underway : Underway start structs left registry schemas)
    (stuck : ∀ definition ∈ left, isReady registry definition = false) (some : left ≠ []) :
    ∃ definition field, FirstBlocked start structs definition field ∧
      blockedFault registry left =
        if field.checker ∈ structs.map (·.name) then
          .typeError ("struct " ++ definition.name ++ " cannot be built: its fields lead back to "
            ++ field.checker)
        else .unknownModule field.checker := by
  rcases List.exists_cons_of_ne_nil some with ⟨definition, rest, rfl⟩
  have isLeft : definition ∈ definition :: rest := List.mem_cons_self
  rcases List.filter_eq_cons_iff.mp underway.pending_eq.symm with ⟨before, after, whole, skipped, -⟩
  -- The struct is not ready, so one of its fields is missing.
  have missing : (definition.fields.find? fun field => !registry.contains field.checker).isSome := by
    have unready := stuck definition isLeft
    rw [List.find?_isSome]
    simpa [isReady] using unready
  rcases Option.isSome_iff_exists.mp missing with ⟨field, found⟩
  rcases List.find?_eq_some_iff_append.mp found with ⟨unknown, earlier, later, fields, known⟩
  have unregistered : ¬ registry.contains field.checker = true := by simpa using unknown
  refine ⟨definition, field, ⟨before, after, earlier, later, whole, ?_, fields, ?_, ?_⟩, ?_⟩
  · intro other member
    have inStructs : other ∈ structs := by simp [whole, member]
    refine underway.buildable_of_not_mem distinct inStructs fun isPending => ?_
    have unbuilt := (underway.mem_pending_iff.mp isPending).2
    exact skipped other member (by simpa using unbuilt)
  · intro other member
    exact underway.obtainable_of_contains (by simpa using known other member)
  · exact fun obtainable => unregistered (underway.contains_of_obtainable stuck obtainable)
  · -- A struct that is missing is one of those that are left.
    have waits : ((definition :: rest).any fun other => other.name == field.checker) = true ↔
        field.checker ∈ structs.map (·.name) := by
      rw [List.any_eq_true]
      constructor
      · rintro ⟨other, member, same⟩
        rw [beq_iff_eq] at same
        exact same ▸ List.mem_map_of_mem (underway.mem_pending_iff.mp member).1
      · intro isStruct
        rcases List.mem_map.mp isStruct with ⟨other, inStructs, same⟩
        have unbuilt : other.name ∉ schemas.map Prod.fst := fun isBuilt =>
          unregistered ((underway.contains_iff _).mpr (.inr (same ▸ isBuilt)))
        exact ⟨other, underway.mem_pending_iff.mpr ⟨inStructs, unbuilt⟩, by simp [same]⟩
    rw [blockedFault_cons found]
    simp only [waits]

/-- A failed build of a compiled file reports the first field whose name is not obtainable, in the
first struct that has such a field.  If it names no struct, the module is reported as unknown.  If it
names a struct, which then waits for others, a cycle is reported, although there is none: some field
names neither a registered module nor a struct. -/
theorem build_fault_exact {defaultModule : String} {file : Surface.SourceFile} {program : Program}
    (compiled : Compile.compileFile defaultModule file = .ok program) {registry : Registry}
    {limit : Nat} {fault : Fault} (failed : build program registry limit = .error fault) :
    (∃ definition field, FirstBlocked registry program.records definition field ∧
      fault = if field.checker ∈ program.records.map (·.name) then
          .typeError ("struct " ++ definition.name ++ " cannot be built: its fields lead back to "
            ++ field.checker)
        else .unknownModule field.checker) ∧
    WellFounded (Needs program.records) ∧
    ∃ definition ∈ program.records, ∃ field ∈ definition.fields,
      field.checker ∉ registry.names ∧ field.checker ∉ program.records.map (·.name) := by
  have distinct := Compile.nodup_structNames compiled
  have acyclic := Compile.wellFounded_needs compiled
  rcases exists_end_of_build distinct registry limit with
    ⟨left, registry', schemas', underway, stuck, outcome⟩
  rw [outcome] at failed
  split at failed
  next => cases failed
  next some =>
    cases failed
    rcases underway.blockedFault_eq distinct stuck some with ⟨definition, field, blocked, reported⟩
    refine ⟨⟨definition, field, blocked, reported⟩, acyclic, ?_⟩
    -- If every field named something known, nothing would be left, as there are no cycles.
    by_contra named
    have buildable : ∀ definition ∈ program.records,
        Buildable registry program.records definition := by
      refine (buildable_iff_named acyclic).mpr fun definition member field inFields => ?_
      by_contra neither
      rw [← Registry.mem_names_iff, not_or] at neither
      exact named ⟨definition, member, field, inFields, neither⟩
    rcases List.exists_mem_of_ne_nil left some with ⟨definition, isLeft⟩
    exact underway.not_buildable stuck isLeft
      (buildable definition (underway.mem_pending_iff.mp isLeft).1)

/-- Where the line comes first, the module that it misses is reported. -/
theorem build_fault_exact_missing :
    ∃ program, Compile.compileFile "Main" (lineFirst "Missing") = .ok program ∧
      build program [] 4 = .error (.unknownModule "Missing") ∧
      ∃ definition field, FirstBlocked [] program.records definition field ∧
        field.checker = "Missing" := by
  have fails : ∃ program, Compile.compileFile "Main" (lineFirst "Missing") = .ok program ∧
      build program [] 4 = .error (.unknownModule "Missing") := ⟨_, rfl, rfl⟩
  rcases fails with ⟨program, compiled, failed⟩
  rcases build_fault_exact compiled failed with ⟨⟨definition, field, blocked, reported⟩, -⟩
  refine ⟨program, compiled, failed, definition, field, blocked, ?_⟩
  split at reported
  next => cases reported
  next => exact (Fault.unknownModule.inj reported).symm

/-- Where the order comes first, a cycle is reported for the same structs: there is none, and what the
line misses is not named. -/
theorem build_blames_waiting_struct :
    ∃ program, Compile.compileFile "Main" (orderFirst "Missing") = .ok program ∧
      WellFounded (Needs program.records) ∧
      build program [] 4 = .error
        (.typeError "struct Order cannot be built: its fields lead back to Line") ∧
      ¬ ∃ missing, build program [] 4 = .error (.unknownModule missing) := by
  have fails : ∃ program, Compile.compileFile "Main" (orderFirst "Missing") = .ok program ∧
      build program [] 4 = .error
        (.typeError "struct Order cannot be built: its fields lead back to Line") := ⟨_, rfl, rfl⟩
  rcases fails with ⟨program, compiled, failed⟩
  refine ⟨program, compiled, Compile.wellFounded_needs compiled, failed, ?_⟩
  rintro ⟨missing, reported⟩
  rw [failed] at reported
  cases reported

end Machine
end Clausal
