import Clausal.Proofs.Execution
import Clausal.Proofs.Structs.Building

/-!
# The modules that check the fields of structs

A schema takes the modules of its fields from the registry when it is built, and the registry goes on
changing: each struct is registered under its own name when its turn comes.  For a name that becomes
known only then, this makes no difference, as the struct is built before those that hold it.  A name
that was registered from the start is another matter.  It counts as known at once, so a schema may take
the module that was there, and the struct of that name replaces it in the registry afterwards.

`BoundSoFar` is the invariant of the loop that says this, and `build_fieldModules` the statement about
machines: apart from such names, fields and `validate[..]` parameters are checked by the same modules,
in whatever order the structs are declared.
-/

namespace Clausal
namespace Machine

open Clausal.Core (Program RecordDef RecordField)
open Outcome

/-- A slot has the name of a field and the module that is registered under the name the field was
declared with, with the default of that module. -/
def BoundTo (registry : Registry) (field : RecordField) (slot : String × ValueModule × Value) : Prop :=
  slot.1 = field.name ∧ registry.get? field.checker = some slot.2.1 ∧ slot.2.2 = fallbackOf slot.2.1

/-- A slot whose module is that of the registry at the end, or one that was registered at the start
under the name of a struct. -/
def BoundOrStale (start registry : Registry) (structs : List RecordDef) (field : RecordField)
    (slot : String × ValueModule × Value) : Prop :=
  BoundTo registry field slot ∨ field.checker ∈ structs.map (·.name) ∧ BoundTo start field slot

/-- Registries that agree on the modules of some fields bind them alike. -/
theorem slots_unique {registry registry' : Registry} {fields : List RecordField}
    {slots slots' : List (String × ValueModule × Value)}
    (bound : List.Forall₂ (BoundTo registry) fields slots)
    (bound' : List.Forall₂ (BoundTo registry') fields slots')
    (agree : ∀ field ∈ fields, registry'.get? field.checker = registry.get? field.checker) :
    slots' = slots := by
  induction bound generalizing slots' with
  | nil =>
      cases bound'
      rfl
  | @cons field slot _ _ head _ ih =>
      rw [List.forall_mem_cons] at agree
      cases bound' with
      | @cons _ slot' _ _ head' rest' =>
          -- The module is found under the name in the declaration, and the fallback is the one of the
          -- module.
          have sameModule : slot'.2.1 = slot.2.1 := by
            have found := head'.2.1
            rw [agree.1, head.2.1] at found
            exact (Option.some.inj found).symm
          have sameSlot : slot' = slot := by
            refine Prod.ext (head'.1.trans head.1.symm) (Prod.ext sameModule ?_)
            rw [head'.2.2, head.2.2, sameModule]
          rw [sameSlot, ih rest' agree.2]

/-! ## What is bound so far -/

/-- What a registry and some schemas have to do with each other while structs are built. -/
structure BoundSoFar (start : Registry) (structs : List RecordDef) (registry : Registry)
    (schemas : List (String × RecordSchema)) : Prop where
  ofSchema : ∀ name schema, schemas.lookup name = some schema →
    registry.get? name = some schema.toModule
  /-- A name without a schema has the module it had at the start. -/
  kept : ∀ name, name ∉ schemas.map Prod.fst → registry.get? name = start.get? name
  slots : ∀ definition ∈ structs, ∀ schema, schemas.lookup definition.name = some schema →
    List.Forall₂ (BoundOrStale start registry structs) definition.fields schema.fields

namespace BoundSoFar

variable {start registry : Registry} {structs : List RecordDef}
  {schemas : List (String × RecordSchema)} {definition : RecordDef}

theorem begin (start : Registry) (structs : List RecordDef) : BoundSoFar start structs start [] where
  ofSchema := fun _ _ found => nomatch found
  kept := fun _ _ => rfl
  slots := fun _ _ _ found => nomatch found

/-- A slot that is there stays as it is when a struct without a schema is registered: if it was bound
to that name, then to the module from the start. -/
theorem boundOrStale_insert (bound : BoundSoFar start structs registry schemas)
    (member : definition ∈ structs) (fresh : definition.name ∉ schemas.map Prod.fst)
    (checker : ValueModule) {field : RecordField} {slot : String × ValueModule × Value}
    (here : BoundOrStale start registry structs field slot) :
    BoundOrStale start (registry.insert definition.name checker) structs field slot := by
  rcases here with ⟨named, found, default⟩ | stale
  · by_cases same : field.checker = definition.name
    · -- The name had no schema, so what is registered under it was there from the start.
      have atStart : start.get? field.checker = some slot.2.1 := by
        rw [same, ← bound.kept _ fresh, ← same]
        exact found
      exact .inr ⟨same ▸ List.mem_map_of_mem member, named, atStart, default⟩
    · have found' := (Registry.get?_insert_of_ne registry checker same).trans found
      exact .inl ⟨named, found', default⟩
  · exact .inr stale

/-- Building one more struct keeps the invariant. -/
theorem step (distinct : (structs.map (·.name)).Nodup)
    (bound : BoundSoFar start structs registry schemas) (member : definition ∈ structs)
    (fresh : definition.name ∉ schemas.map Prod.fst) {schema : RecordSchema}
    (made : RecordSchema.ofDef registry definition = .ok schema) :
    BoundSoFar start structs (registry.insert definition.name schema.toModule)
      ((definition.name, schema) :: schemas) := by
  refine ⟨?_, ?_, ?_⟩
  · intro name other found
    by_cases same : name = definition.name
    · subst same
      rw [List.lookup_cons_self] at found
      cases found
      exact Registry.get?_insert_self ..
    · rw [List.lookup_cons, beq_eq_false_iff_ne.mpr same] at found
      exact (Registry.get?_insert_of_ne registry _ same).trans (bound.ofSchema name other found)
  · intro name unbuilt
    rw [List.map_cons, List.mem_cons, not_or] at unbuilt
    exact (Registry.get?_insert_of_ne registry _ unbuilt.1).trans (bound.kept name unbuilt.2)
  · intro other isStruct schema' found
    by_cases same : other.name = definition.name
    · -- The new schema is bound to the registry before it was registered itself.
      obtain rfl : other = definition := List.inj_on_of_nodup_map distinct isStruct member same
      rw [List.lookup_cons_self] at found
      cases found
      rcases map_eq_ok.mp made with ⟨fields, here, rfl⟩
      refine (bindFields_forall₂ here).imp fun field slot isBound => ?_
      exact bound.boundOrStale_insert member fresh _ (.inl isBound)
    · rw [List.lookup_cons, beq_eq_false_iff_ne.mpr same] at found
      exact (bound.slots other isStruct schema' found).imp fun field slot =>
        bound.boundOrStale_insert member fresh _

end BoundSoFar

/-- A machine that was built has a schema for each struct, and the schemas are bound. -/
theorem bound_of_build {program : Program} {registry : Registry} {limit : Nat} {machine : Machine}
    (distinct : (program.records.map (·.name)).Nodup)
    (built : build program registry limit = .ok machine) :
    Underway registry program.records [] machine.registry machine.schemas ∧
      BoundSoFar registry program.records machine.registry machine.schemas := by
  refine build_induction
    (P := fun pending registry' schemas => Underway registry program.records pending registry' schemas ∧
      BoundSoFar registry program.records registry' schemas)
    ?_ ⟨.begin registry program.records, .begin registry program.records⟩ built
  intro pending registry' schemas definition others schema member soFar taken made
  have isPending : definition ∈ pending := (perm_of_takeReady? taken).subset List.mem_cons_self
  have fresh := (soFar.1.mem_pending_iff.mp isPending).2
  exact ⟨soFar.1.step distinct taken made, soFar.2.step distinct member fresh made⟩

/-! ## Modules of a machine -/

section Machines

variable {program reordered : Program} {registry : Registry} {limit limit' : Nat}
  {machine machine' : Machine}

/-- No field names a struct whose name was registered from the start. -/
def NoneRegistered (registry : Registry) (structs : List RecordDef) : Prop :=
  ∀ definition ∈ structs, ∀ field ∈ definition.fields, field.checker ∈ registry.names →
    field.checker ∉ structs.map (·.name)

/-- Every struct has a schema, whose slots have the modules of the final registry unless a name was
registered before. -/
theorem exists_boundSchema (distinct : (program.records.map (·.name)).Nodup)
    (built : build program registry limit = .ok machine) {definition : RecordDef}
    (member : definition ∈ program.records) :
    ∃ schema, machine.schemas.lookup definition.name = some schema ∧
      schema.name = definition.name ∧ machine.registry.get? definition.name = some schema.toModule ∧
      List.Forall₂ (BoundOrStale registry machine.registry program.records)
        definition.fields schema.fields := by
  rcases bound_of_build distinct built with ⟨underway, bound⟩
  rcases underway.exists_schema distinct member with ⟨schema, found, named, -⟩
  exact ⟨schema, found, named, bound.ofSchema _ _ found, bound.slots _ member _ found⟩

theorem forall₂_boundTo {definition : RecordDef} {slots : List (String × ValueModule × Value)}
    {final : Registry} (fresh : NoneRegistered registry program.records)
    (member : definition ∈ program.records)
    (bound : List.Forall₂ (BoundOrStale registry final program.records) definition.fields slots) :
    List.Forall₂ (BoundTo final) definition.fields slots := by
  refine (List.forall₂_and_left (p := fun field => field ∈ definition.fields) _ _).mpr
    ⟨fun _ => id, bound⟩ |>.imp ?_
  rintro field slot ⟨inFields, here | ⟨isStruct, -, atStart, -⟩⟩
  · exact here
  · have known : field.checker ∈ registry.names :=
      Registry.mem_names_iff.mpr (Registry.contains_iff.mpr ⟨_, atStart⟩)
    exact absurd isStruct (fresh definition member field inFields known)

theorem NoneRegistered.of_perm {structs structs' : List RecordDef} (order : structs'.Perm structs)
    (fresh : NoneRegistered registry structs) : NoneRegistered registry structs' := by
  intro definition member field inFields known isStruct
  exact fresh definition (order.subset member) field inFields known ((order.map _).subset isStruct)

/-- A name that is not that of a struct keeps its module. -/
theorem registry_get?_of_not_struct (distinct : (program.records.map (·.name)).Nodup)
    (built : build program registry limit = .ok machine) {name : String}
    (other : name ∉ program.records.map (·.name)) :
    machine.registry.get? name = registry.get? name := by
  rcases bound_of_build distinct built with ⟨underway, bound⟩
  exact bound.kept name fun isBuilt => other ((underway.schemas_perm distinct).subset isBuilt)

/-- In whatever order the structs are declared, they get the same schemas and names the same modules. -/
theorem schemas_of_perm (acyclic : WellFounded (Needs program.records))
    (distinct : (program.records.map (·.name)).Nodup)
    (order : reordered.records.Perm program.records)
    (fresh : NoneRegistered registry program.records)
    (built : build program registry limit = .ok machine)
    (built' : build reordered registry limit' = .ok machine') :
    (∀ definition ∈ program.records,
      machine'.schemas.lookup definition.name = machine.schemas.lookup definition.name) ∧
    ∀ name, machine'.registry.get? name = machine.registry.get? name := by
  have distinct' : (reordered.records.map (·.name)).Nodup := (order.map _).nodup_iff.mpr distinct
  have others : ∀ name, name ∉ program.records.map (·.name) →
      machine'.registry.get? name = machine.registry.get? name := by
    intro name other
    have other' : name ∉ reordered.records.map (·.name) := fun isStruct =>
      other ((order.map _).subset isStruct)
    rw [registry_get?_of_not_struct distinct' built' other',
      registry_get?_of_not_struct distinct built other]
  have structs : ∀ name, ∀ definition ∈ program.records, definition.name = name →
      machine'.schemas.lookup name = machine.schemas.lookup name ∧
      machine'.registry.get? name = machine.registry.get? name := by
    intro name
    -- The modules of the fields agree because the fields name structs further down.
    induction name using acyclic.induction with
    | _ name ih =>
        rintro definition member rfl
        have agree : ∀ field ∈ definition.fields,
            machine'.registry.get? field.checker = machine.registry.get? field.checker := by
          intro field inFields
          by_cases isStruct : field.checker ∈ program.records.map (·.name)
          · rcases List.mem_map.mp isStruct with ⟨inner, inStructs, same⟩
            have needed : Needs program.records field.checker definition.name :=
              ⟨definition, member, rfl, ⟨field, inFields, rfl⟩, isStruct⟩
            exact (ih field.checker needed inner inStructs same).2
          · exact others field.checker isStruct
        have member' : definition ∈ reordered.records := order.mem_iff.mpr member
        rcases exists_boundSchema distinct built member with ⟨schema, found, named, known, slots⟩
        rcases exists_boundSchema distinct' built' member' with
          ⟨schema', found', named', known', slots'⟩
        have sameFields : schema'.fields = schema.fields :=
          slots_unique (forall₂_boundTo fresh member slots)
            (forall₂_boundTo (fresh.of_perm order) member' slots') agree
        have same : schema' = schema := by
          cases schema
          cases schema'
          simp_all only
        rw [found, found', known, known', same]
        exact ⟨rfl, rfl⟩
  refine ⟨fun definition member => (structs _ definition member rfl).1, fun name => ?_⟩
  by_cases isStruct : name ∈ program.records.map (·.name)
  · rcases List.mem_map.mp isStruct with ⟨definition, member, same⟩
    exact (structs name definition member same).2
  · exact others name isStruct

/-- A slot of a field and a parameter that asks for the module of the field accept the same values and
make the same of them. -/
def ChecksAlike (machine : Machine) (field : RecordField) (slot : String × ValueModule × Value) : Prop :=
  ∀ bindings frame place value, frame.get? place = some value → ∀ accepted,
    checkSlot machine bindings frame place field.checker = .ok accepted ↔
      slot.2.1.validate value = .ok accepted

theorem BoundTo.checksAlike {field : RecordField} {slot : String × ValueModule × Value}
    (bound : BoundTo machine.registry field slot) : ChecksAlike machine field slot := by
  intro bindings frame place value holds accepted
  simp only [checkSlot, bound.2.1, holds, Option.getD_some]
  cases slot.2.1.validate value with
  | ok given => simp
  | error diagnostic => simp

end Machines

/-- The slot of a field has the module that the machine has under the name the field was declared
with, or else the name is that of a struct and the slot has the module that was registered under it
before the machine was built.  Where no field names such a struct, fields and parameters are checked
alike, and the order of the structs changes neither the schemas nor the registered modules. -/
theorem build_fieldModules {defaultModule : String} {file : Surface.SourceFile}
    {program reordered : Program} (compiled : Compile.compileFile defaultModule file = .ok program)
    (order : reordered.records.Perm program.records) {registry : Registry} {limit limit' : Nat}
    {machine machine' : Machine} (built : build program registry limit = .ok machine)
    (built' : build reordered registry limit' = .ok machine') :
    (∀ definition ∈ program.records, ∃ schema,
      machine.schemas.lookup definition.name = some schema ∧
      List.Forall₂ (BoundOrStale registry machine.registry program.records)
        definition.fields schema.fields) ∧
    (NoneRegistered registry program.records →
      (∀ definition ∈ program.records, ∃ schema,
        machine.schemas.lookup definition.name = some schema ∧
        machine'.schemas.lookup definition.name = some schema ∧
        List.Forall₂ (fun field slot => BoundTo machine.registry field slot ∧
          ChecksAlike machine field slot) definition.fields schema.fields) ∧
      ∀ name, machine'.registry.get? name = machine.registry.get? name) := by
  have distinct := Compile.nodup_structNames compiled
  have acyclic := Compile.wellFounded_needs compiled
  refine ⟨?_, ?_⟩
  · intro definition member
    rcases exists_boundSchema distinct built member with ⟨schema, found, -, -, slots⟩
    exact ⟨schema, found, slots⟩
  · intro fresh
    rcases schemas_of_perm acyclic distinct order fresh built built' with ⟨sameSchemas, sameModules⟩
    refine ⟨?_, sameModules⟩
    intro definition member
    rcases exists_boundSchema distinct built member with ⟨schema, found, -, -, slots⟩
    refine ⟨schema, found, (sameSchemas definition member).trans found, ?_⟩
    exact (forall₂_boundTo fresh member slots).imp fun field slot bound => ⟨bound, bound.checksAlike⟩

/-- An order and its line, in both orders, where only the module of the item was registered. -/
theorem build_fieldModules_order :
    ∃ program reordered machine machine' schema,
      Compile.compileFile "Main" (orderFirst "Count") = .ok program ∧
      Compile.compileFile "Main" (lineFirst "Count") = .ok reordered ∧
      build program [("Count", .integerRange none none)] 4 = .ok machine ∧
      build reordered [("Count", .integerRange none none)] 4 = .ok machine' ∧
      machine.schemas.lookup "Order" = some schema ∧ machine'.schemas.lookup "Order" = some schema ∧
      List.Forall₂ (ChecksAlike machine) [⟨"line", "Line"⟩] schema.fields := by
  have builds : ∃ program reordered machine machine',
      Compile.compileFile "Main" (orderFirst "Count") = .ok program ∧
      Compile.compileFile "Main" (lineFirst "Count") = .ok reordered ∧
      build program [("Count", .integerRange none none)] 4 = .ok machine ∧
      build reordered [("Count", .integerRange none none)] 4 = .ok machine' ∧
      program.records = [⟨"Order", [⟨"line", "Line"⟩]⟩, ⟨"Line", [⟨"item", "Count"⟩]⟩] ∧
      reordered.records.Perm program.records :=
    ⟨_, _, _, _, rfl, rfl, rfl, rfl, rfl, .swap ..⟩
  rcases builds with
    ⟨program, reordered, machine, machine', compiled, compiled', built, built', records, order⟩
  have fresh : NoneRegistered [("Count", .integerRange none none)] program.records := by
    simp only [NoneRegistered, records, Registry.mem_names_iff]
    decide
  rcases (build_fieldModules compiled order built built').2 fresh with ⟨schemas, -⟩
  rcases schemas ⟨"Order", [⟨"line", "Line"⟩]⟩ (by simp [records]) with ⟨schema, here, there, slots⟩
  exact ⟨program, reordered, machine, machine', schema, compiled, compiled', built, built', here, there,
    slots.imp fun _ _ bound => bound.2⟩

/-- Where `Line` is registered from the start, an order that is declared before the line keeps that
module: it takes a number for a line, which a parameter that asks for a line refuses.  Declared after
the line, it refuses the number too. -/
theorem fieldModule_stale :
    ∃ program reordered machine machine',
      Compile.compileFile "Main" (orderFirst "Count") = .ok program ∧
      Compile.compileFile "Main" (lineFirst "Count") = .ok reordered ∧
      build program [("Line", .integerRange none none), ("Count", .integerRange none none)] 4
        = .ok machine ∧
      build reordered [("Line", .integerRange none none), ("Count", .integerRange none none)] 4
        = .ok machine' ∧
      machine.schemas.lookup "Order"
        = some ⟨"Order", [("line", .integerRange none none, .int 0)]⟩ ∧
      machine.registry.get? "Line"
        = some (.records "Line" [("item", .integerRange none none, .int 0)]) ∧
      machine.call "Order" "validate" [.map [(.atom "line", .int 5)]]
        = .ok (.ok (.record "Order" [("line", .int 5)])) ∧
      (∀ bindings, ∃ fault,
        checkSlot machine bindings (Frame.empty.set 0 (.int 5)) 0 "Line" = .error fault) ∧
      ∃ failure, machine'.call "Order" "validate" [.map [(.atom "line", .int 5)]]
        = .ok (.error failure) :=
  ⟨_, _, _, _, rfl, rfl, rfl, rfl, rfl, rfl, by with_unfolding_all rfl,
    fun _ => ⟨_, by with_unfolding_all rfl⟩, _, by with_unfolding_all rfl⟩

end Machine
end Clausal
