import Mathlib.Data.List.Nodup
import Clausal.Proofs.Emitted
import Clausal.Proofs.Invocation

/-!
# Structs and their schemas

The structs of a compiled file have different names, and so have the fields of each
(`CompiledStructs`).  Building a machine turns the structs into schemas one after the other, as their
modules become known.  `bindFields_forall₂` says what a schema takes from the modules, `build_run` what
follows for the end of every build from what each step keeps, and `build_induction` what follows for
the machine that is built.
-/

namespace Clausal

open Clausal.Core (Program ProgramModule RecordDef RecordField)
open Outcome

/-! ## Structs of a compiled file -/

/-- No two structs have the same name, and no two fields of one struct. -/
structure CompiledStructs (structs : List RecordDef) : Prop where
  unique : ∀ a ∈ structs, ∀ b ∈ structs, a.name = b.name → a = b
  distinct : ∀ definition ∈ structs, (definition.fields.map (·.name)).Nodup

namespace Compile

theorem recordFields_distinct {seen : List String} {written : List SchemaField}
    {fields : List RecordField} (h : recordFields seen written = .ok fields) :
    (fields.map (·.name)).Nodup ∧ ∀ field ∈ fields, field.name ∉ seen := by
  induction written generalizing seen fields with
  | nil =>
      cases h
      exact ⟨List.nodup_nil, fun _ member => nomatch member⟩
  | cons field rest ih =>
      simp only [recordFields] at h
      split at h
      next => cases h
      next fresh =>
        rcases map_eq_ok.mp h with ⟨others, there, rfl⟩
        rcases ih there with ⟨distinct, unseen⟩
        -- Later fields were compared with this one as well as with those before.
        refine ⟨?_, ?_⟩
        · rw [List.map_cons, List.nodup_cons]
          refine ⟨?_, distinct⟩
          intro member
          rcases List.mem_map.mp member with ⟨other, inRest, same⟩
          exact unseen other inRest (same ▸ List.mem_cons_self)
        · intro other member
          rcases List.mem_cons.mp member with rfl | member
          · simpa using fresh
          · exact fun before => unseen other member (List.mem_cons_of_mem _ before)

theorem compileModule_record {m : ModuleSpec} {compiled : ProgramModule}
    (h : compileModule m = .ok compiled) : moduleRecord m = .ok compiled.record := by
  unfold compileModule at h
  rcases bind_eq_ok.mp h with ⟨record, here, h⟩
  rcases bind_eq_ok.mp h with ⟨functions, _, hr⟩
  cases hr
  exact here

/-- The struct of a module has the name of the module, and fields with different names. -/
theorem compileModule_struct {m : ModuleSpec} {compiled : ProgramModule} {definition : RecordDef}
    (h : compileModule m = .ok compiled) (has : compiled.record = some definition) :
    definition.name = compiled.name ∧ (definition.fields.map (·.name)).Nodup := by
  have made := compileModule_record h
  rw [has] at made
  unfold moduleRecord at made
  cases written : m.schema with
  | none =>
      rw [written] at made
      cases made
  | some schema =>
      rw [written] at made
      rcases map_eq_ok.mp made with ⟨_, record, same⟩
      cases same
      rcases map_eq_ok.mp record with ⟨fields, given, rfl⟩
      exact ⟨(compileModule_functions h).1.symm, (recordFields_distinct given).1⟩

variable {defaultModule : String} {file : Surface.SourceFile} {program : Program}

theorem map_name_of_forall₂ {modules : List ModuleSpec} {compiled : List ProgramModule}
    (related : List.Forall₂ (fun m compiled => compileModule m = .ok compiled) modules compiled) :
    compiled.map (·.name) = modules.map (·.name) := by
  induction related with
  | nil => rfl
  | cons head _ ih => rw [List.map_cons, List.map_cons, ih, (compileModule_functions head).1]

theorem nodup_moduleNames (h : compileFile defaultModule file = .ok program) :
    (program.modules.map (·.name)).Nodup := by
  rcases bind_eq_ok.mp h with ⟨modules, lowered, compiled⟩
  rw [map_name_of_forall₂ (compileModules_forall₂ compiled)]
  exact (lowerFile_madeOf lowered).distinct

theorem compiledStructs (h : compileFile defaultModule file = .ok program) :
    CompiledStructs program.records := by
  have names := nodup_moduleNames h
  rcases bind_eq_ok.mp h with ⟨modules, _, compiled⟩
  -- Every struct is that of a module, which has the same name.
  have owned : ∀ definition ∈ program.records, ∃ m ∈ program.modules,
      m.record = some definition ∧ definition.name = m.name ∧
        (definition.fields.map (·.name)).Nodup := by
    intro definition member
    rcases List.mem_filterMap.mp member with ⟨m, inProgram, has⟩
    rcases exists_mem_of_forall₂ (compileModules_forall₂ compiled) inProgram with ⟨_, _, made⟩
    exact ⟨m, inProgram, has, compileModule_struct made has⟩
  refine ⟨?_, ?_⟩
  · intro a inA b inB same
    rcases owned a inA with ⟨m, inProgram, hasA, nameA, _⟩
    rcases owned b inB with ⟨m', inProgram', hasB, nameB, _⟩
    have sameModule : m = m' :=
      List.inj_on_of_nodup_map names inProgram inProgram' (nameA.symm.trans (same.trans nameB))
    rw [sameModule, hasB] at hasA
    exact (Option.some.inj hasA).symm
  · intro definition member
    rcases owned definition member with ⟨_, _, _, _, distinct⟩
    exact distinct

end Compile

/-! ## Schemas -/

theorem Registry.contains_iff {registry : Registry} {name : String} :
    registry.contains name = true ↔ ∃ checker, registry.get? name = some checker :=
  Option.isSome_iff_exists

namespace Machine

/-- The value a field gets when none is given. -/
def fallbackOf (checker : ValueModule) : Value :=
  match checker.default with
  | .ok value => value
  | .error _ => .nil

/-- A field of a schema has the module that is registered under the name it was declared with. -/
theorem bindFields_forall₂ {registry : Registry} {fields : List RecordField}
    {bound : List (String × ValueModule × Value)}
    (h : RecordSchema.bindFields registry fields = .ok bound) :
    List.Forall₂ (fun field entry => entry.1 = field.name ∧
      registry.get? field.checker = some entry.2.1 ∧ entry.2.2 = fallbackOf entry.2.1)
      fields bound := by
  induction fields generalizing bound with
  | nil =>
      cases h
      exact .nil
  | cons field rest ih =>
      simp only [RecordSchema.bindFields] at h
      split at h
      next => cases h
      next checker registered =>
        rcases map_eq_ok.mp h with ⟨others, there, rfl⟩
        exact .cons ⟨rfl, registered, rfl⟩ (ih there)

theorem map_fst_of_bindFields {registry : Registry} {fields : List RecordField}
    {bound : List (String × ValueModule × Value)}
    (h : RecordSchema.bindFields registry fields = .ok bound) :
    bound.map Prod.fst = fields.map (·.name) := by
  have related := bindFields_forall₂ h
  clear h
  induction related with
  | nil => rfl
  | cons head _ ih => rw [List.map_cons, List.map_cons, ih, head.1]

/-! ## Building one struct -/

section Step

variable {registry : Registry} {pending others : List RecordDef} {definition : RecordDef}

theorem isReady_iff : isReady registry definition = true ↔
    ∀ field ∈ definition.fields, registry.contains field.checker = true := by
  simp [isReady]

/-- The struct that is taken is the first that is ready; the others keep their order. -/
theorem takeReady?_eq_some (h : takeReady? registry pending = some (definition, others)) :
    isReady registry definition = true ∧
      ∃ before after, pending = before ++ definition :: after ∧ others = before ++ after := by
  induction pending generalizing others with
  | nil => cases h
  | cons first rest ih =>
      simp only [takeReady?] at h
      split at h
      next ready =>
        cases h
        exact ⟨ready, [], rest, rfl, rfl⟩
      next =>
        rcases Option.map_eq_some_iff.mp h with ⟨⟨found, left⟩, taken, same⟩
        cases same
        rcases ih taken with ⟨ready, before, after, rfl, rfl⟩
        exact ⟨ready, first :: before, after, rfl, rfl⟩

theorem takeReady?_eq_none (h : takeReady? registry pending = none) :
    ∀ definition ∈ pending, isReady registry definition = false := by
  induction pending with
  | nil => exact List.forall_mem_nil _
  | cons first rest ih =>
      simp only [takeReady?] at h
      split at h
      next => cases h
      next unready =>
        have later := ih (Option.map_eq_none_iff.mp h)
        exact List.forall_mem_cons.mpr ⟨by simpa using unready, later⟩

/-- A struct that is ready gets a schema. -/
theorem exists_ofDef (ready : isReady registry definition = true) :
    ∃ schema, RecordSchema.ofDef registry definition = .ok schema := by
  have bound : ∀ fields : List RecordField,
      (∀ field ∈ fields, registry.contains field.checker = true) →
      ∃ entries, RecordSchema.bindFields registry fields = .ok entries := by
    intro fields known
    induction fields with
    | nil => exact ⟨[], rfl⟩
    | cons field rest ih =>
        rw [List.forall_mem_cons] at known
        rcases Registry.contains_iff.mp known.1 with ⟨checker, found⟩
        rcases ih known.2 with ⟨entries, there⟩
        simp only [RecordSchema.bindFields, found, there]
        exact ⟨_, rfl⟩
  rcases bound definition.fields (isReady_iff.mp ready) with ⟨entries, there⟩
  exact ⟨⟨definition.name, entries⟩, map_eq_ok.mpr ⟨entries, there, rfl⟩⟩

end Step

/-! ## Building all structs -/

/-- What holds at the start of the loop, and is kept where one struct is built, holds where the loop
stops: nothing that is left is ready, and the build succeeds exactly if nothing is left. -/
theorem buildSchemas_run
    {P : List RecordDef → Registry → List (String × RecordSchema) → Prop}
    (step : ∀ pending registry schemas definition others schema, P pending registry schemas →
      takeReady? registry pending = some (definition, others) →
      RecordSchema.ofDef registry definition = .ok schema →
      P others (registry.insert definition.name schema.toModule)
        ((definition.name, schema) :: schemas))
    {limit : Nat} {pending : List RecordDef} {registry : Registry}
    {schemas : List (String × RecordSchema)} (enough : pending.length ≤ limit)
    (start : P pending registry schemas) :
    ∃ left registry' schemas', P left registry' schemas' ∧
      (∀ definition ∈ left, isReady registry' definition = false) ∧
      buildSchemas limit pending registry schemas =
        if left = [] then .ok (registry', schemas') else .error (blockedFault registry' left) := by
  induction limit generalizing pending registry schemas with
  | zero =>
      obtain rfl : pending = [] := List.eq_nil_of_length_eq_zero (Nat.le_zero.mp enough)
      exact ⟨[], registry, schemas, start, List.forall_mem_nil _, rfl⟩
  | succ limit ih =>
      cases pending with
      | nil => exact ⟨[], registry, schemas, start, List.forall_mem_nil _, rfl⟩
      | cons first rest =>
          cases taken : takeReady? registry (first :: rest) with
          | none =>
              refine ⟨first :: rest, registry, schemas, start, takeReady?_eq_none taken, ?_⟩
              simp only [buildSchemas, taken, if_neg (List.cons_ne_nil first rest)]
          | some found =>
              rcases found with ⟨definition, others⟩
              rcases takeReady?_eq_some taken with ⟨ready, before, after, whole, rest_eq⟩
              rcases exists_ofDef ready with ⟨schema, made⟩
              -- One struct less is pending, so one step less is enough.
              have fewer : others.length ≤ limit := by
                have count := congrArg List.length whole
                simp only [List.length_append, List.length_cons, rest_eq] at count enough ⊢
                omega
              have next := step _ _ _ _ _ _ start taken made
              rcases ih fewer next with ⟨left, registry', schemas', holds, stuck, outcome⟩
              refine ⟨left, registry', schemas', holds, stuck, ?_⟩
              simp only [buildSchemas, taken, made, outcome]

/-- What every step keeps holds where the build stops, and what is left there decides its outcome. -/
theorem build_run {P : List RecordDef → Registry → List (String × RecordSchema) → Prop}
    (step : ∀ pending registry schemas definition others schema, P pending registry schemas →
      takeReady? registry pending = some (definition, others) →
      RecordSchema.ofDef registry definition = .ok schema →
      P others (registry.insert definition.name schema.toModule)
        ((definition.name, schema) :: schemas))
    {program : Program} {registry : Registry} {limit : Nat} (start : P program.records registry []) :
    ∃ left registry' schemas', P left registry' schemas' ∧
      (∀ definition ∈ left, isReady registry' definition = false) ∧
      build program registry limit = if left = [] then .ok ⟨program, registry', schemas', limit⟩
        else .error (blockedFault registry' left) := by
  rcases buildSchemas_run step (Nat.le_refl _) start with
    ⟨left, registry', schemas', holds, stuck, outcome⟩
  refine ⟨left, registry', schemas', holds, stuck, ?_⟩
  rw [build, outcome]
  split <;> rfl

/-- What building one struct of a program keeps holds of the machine that is built. -/
theorem build_induction {P : List RecordDef → Registry → List (String × RecordSchema) → Prop}
    {program : Program} {registry : Registry} {limit : Nat} {machine : Machine}
    (step : ∀ pending registry schemas definition others schema, definition ∈ program.records →
      P pending registry schemas → takeReady? registry pending = some (definition, others) →
      RecordSchema.ofDef registry definition = .ok schema →
      P others (registry.insert definition.name schema.toModule)
        ((definition.name, schema) :: schemas))
    (start : P program.records registry []) (built : build program registry limit = .ok machine) :
    P [] machine.registry machine.schemas := by
  -- What is pending is always among the structs of the program.
  have among : ∀ pending registry schemas definition others schema,
      (∀ definition ∈ pending, definition ∈ program.records) ∧ P pending registry schemas →
      takeReady? registry pending = some (definition, others) →
      RecordSchema.ofDef registry definition = .ok schema →
      (∀ definition ∈ others, definition ∈ program.records) ∧
        P others (registry.insert definition.name schema.toModule)
          ((definition.name, schema) :: schemas) := by
    intro pending registry schemas definition others schema soFar taken made
    have perm := perm_of_takeReady? taken
    have member := soFar.1 definition (perm.subset List.mem_cons_self)
    refine ⟨fun _ left => soFar.1 _ (perm.subset (List.mem_cons_of_mem _ left)), ?_⟩
    exact step pending registry schemas definition others schema member soFar.2 taken made
  rcases build_run among ⟨fun _ member => member, start⟩ with
    ⟨left, registry', schemas', holds, -, outcome⟩
  rw [outcome] at built
  split at built
  next nothing =>
    cases built
    exact nothing ▸ holds.2
  next => cases built

end Machine
end Clausal
