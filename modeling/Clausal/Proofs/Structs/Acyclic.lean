import Mathlib.Data.List.Perm.Subperm
import Clausal.Proofs.Structs

/-!
# The structs of a compiled file form no cycle

`Compile.visitStruct` follows the fields of a struct depth first and refuses a field that leads back
to a struct on the way to it.  What it accepts lies in the accessible part of the relation "is held by
a field of": a struct is accessible once all structs that its fields hold are, so no list of what was
visited before has to be put in order.

Main statement: `Compile.wellFounded_needs`.  It is one half of the exactness of the check; for the other,
that a refusal shows a cycle, see `Clausal.Proofs.Structs.Cycles`.
-/

namespace Clausal

open Clausal.Core (Program ProgramModule RecordDef RecordField)
open Outcome

/-- The struct `inner` is named by a field of the struct `outer`. -/
def Needs (structs : List RecordDef) (inner outer : String) : Prop :=
  ∃ definition ∈ structs, definition.name = outer ∧
    (∃ field ∈ definition.fields, field.checker = inner) ∧ inner ∈ structs.map (·.name)

theorem Needs.of_perm {structs structs' : List RecordDef} (order : structs'.Perm structs)
    {inner outer : String} (needs : Needs structs' inner outer) : Needs structs inner outer := by
  rcases needs with ⟨definition, member, named, holds, isStruct⟩
  exact ⟨definition, order.subset member, named, holds, (order.map _).subset isStruct⟩

namespace Compile

/-! ## What the check visits -/

section Visits

variable {modules : List ModuleSpec}

/-- The struct `inner` is named by a field of the struct `outer`, before compiling. -/
def Holds (modules : List ModuleSpec) (inner outer : String) : Prop :=
  ∃ schema, structOf? modules outer = some schema ∧
    (∃ field ∈ schema.fields, field.checker = inner) ∧ (structOf? modules inner).isSome = true

/-- A module without a struct holds nothing. -/
theorem acc_of_structOf?_eq_none {name : String} (none : structOf? modules name = none) :
    Acc (Holds modules) name := by
  refine Acc.intro name ?_
  rintro inner ⟨schema, found, -⟩
  rw [none] at found
  cases found

theorem acc_of_fields {name : String} {schema : StructSchema}
    (found : structOf? modules name = some schema)
    (fields : ∀ field ∈ schema.fields, Acc (Holds modules) field.checker) :
    Acc (Holds modules) name := by
  refine Acc.intro name ?_
  rintro inner ⟨schema', found', ⟨field, member, rfl⟩, -⟩
  have same : schema' = schema := Option.some.inj (found'.symm.trans found)
  exact fields field (same ▸ member)

theorem mem_names_of_structOf? {name : String} {schema : StructSchema}
    (found : structOf? modules name = some schema) : name ∈ modules.map (·.name) := by
  rcases Option.bind_eq_some_iff.mp found with ⟨m, here, -⟩
  have named : m.name = name := by simpa using List.find?_some here
  exact named ▸ List.mem_map_of_mem (List.mem_of_find?_eq_some here)

/-- Everything in a list is accessible. -/
def AllAcc (modules : List ModuleSpec) (names : List String) : Prop :=
  ∀ name ∈ names, Acc (Holds modules) name

/-- A visit of a name makes it accessible and keeps what is done so. -/
def VisitsWell (modules : List ModuleSpec) (path : List String)
    (visit : (done : List String) → (name : String) → Except CompileError (List String)) : Prop :=
  ∀ done name after, name ∉ path → AllAcc modules done → visit done name = .ok after →
    Acc (Holds modules) name ∧ AllAcc modules after

theorem visitFields_acc {path : List String}
    {visit : (done : List String) → (name : String) → Except CompileError (List String)}
    (well : VisitsWell modules path visit) {fields : List SchemaField} {done after : List String}
    (known : AllAcc modules done) (h : visitFields path visit done fields = .ok after) :
    (∀ field ∈ fields, Acc (Holds modules) field.checker) ∧ AllAcc modules after := by
  induction fields generalizing done with
  | nil =>
      cases h
      exact ⟨List.forall_mem_nil _, known⟩
  | cons field rest ih =>
      simp only [visitFields] at h
      split at h
      next => cases h
      next off =>
        split at h
        next => cases h
        next between visited =>
          -- What this visit adds is accessible, so the visits of later fields may rely on it.
          have outside : field.checker ∉ path := by simpa using off
          have step := well done field.checker between outside known visited
          have others := ih step.2 h
          exact ⟨List.forall_mem_cons.mpr ⟨step.1, others.1⟩, others.2⟩

/-- The way to a struct has no repetition, so it is no longer than the list of modules and the limit
is not reached. -/
theorem limit_pos {limit : Nat} {path : List String} (nodup : path.Nodup)
    (inside : path ⊆ modules.map (·.name)) (enough : modules.length < limit + path.length) :
    0 < limit := by
  have short : path.length ≤ modules.length := by
    simpa using (List.subperm_of_subset nodup inside).length_le
  omega

/-- Visiting a struct goes well, whatever the way to it. -/
theorem visitStruct_visitsWell (limit : Nat) {path : List String} (nodup : path.Nodup)
    (inside : path ⊆ modules.map (·.name)) (enough : modules.length < limit + path.length) :
    VisitsWell modules path (visitStruct modules limit path) := by
  -- The induction is on the limit; the way to the struct grows by one name where the limit falls.
  induction limit generalizing path with
  | zero => exact absurd (limit_pos nodup inside enough) (Nat.lt_irrefl 0)
  | succ limit ih =>
      intro done name after off known h
      simp only [visitStruct] at h
      split at h
      next before =>
        cases h
        exact ⟨known name (by simpa using before), known⟩
      next =>
        split at h
        next none =>
          cases h
          exact ⟨acc_of_structOf?_eq_none none, known⟩
        next schema found =>
          rcases map_eq_ok.mp h with ⟨visited, ran, rfl⟩
          have longer : (path ++ [name]).Nodup :=
            List.nodup_append.mpr ⟨nodup, List.nodup_singleton name, by
              rintro a inPath b inName rfl
              exact off (List.mem_singleton.mp inName ▸ inPath)⟩
          have stillInside : path ++ [name] ⊆ modules.map (·.name) :=
            List.append_subset.mpr ⟨inside, by simpa using mem_names_of_structOf? found⟩
          have nested := ih longer stillInside (by simp; omega)
          have fields := visitFields_acc nested known ran
          have here : Acc (Holds modules) name := acc_of_fields found fields.1
          exact ⟨here, List.forall_mem_append.mpr ⟨fields.2, List.forall_mem_singleton.mpr here⟩⟩

theorem visitModules_acc {visited : List ModuleSpec} {done after : List String}
    (known : AllAcc modules done) (h : visitModules modules done visited = .ok after) :
    ∀ m ∈ visited, Acc (Holds modules) m.name := by
  induction visited generalizing done with
  | nil => exact List.forall_mem_nil _
  | cons m rest ih =>
      simp only [visitModules] at h
      split at h
      next => cases h
      next between ran =>
        have step := visitStruct_visitsWell (modules.length + 1) List.nodup_nil
          (List.nil_subset _) (by simp) done m.name between List.not_mem_nil known ran
        exact List.forall_mem_cons.mpr ⟨step.1, ih step.2 h⟩

/-- The check accepts only modules whose structs form no cycle. -/
theorem wellFounded_of_checkCycles (h : checkCycles modules = .ok ()) :
    WellFounded (Holds modules) := by
  rcases map_eq_ok.mp h with ⟨after, ran, -⟩
  have each := visitModules_acc (List.forall_mem_nil _) ran
  refine ⟨fun name => ?_⟩
  cases found : structOf? modules name with
  | none => exact acc_of_structOf?_eq_none found
  | some schema =>
      rcases List.mem_map.mp (mem_names_of_structOf? found) with ⟨m, member, rfl⟩
      exact each m member

end Visits

/-! ## Structs of a compiled file -/

/-- The fields of a record are those of its struct. -/
theorem recordFields_eq_map {seen : List String} {written : List SchemaField}
    {fields : List RecordField} (h : recordFields seen written = .ok fields) :
    fields = written.map fun field => { name := field.name, checker := field.checker } := by
  induction written generalizing seen fields with
  | nil =>
      cases h
      rfl
  | cons field rest ih =>
      simp only [recordFields] at h
      split at h
      next => cases h
      next =>
        rcases map_eq_ok.mp h with ⟨others, there, rfl⟩
        rw [List.map_cons, ← ih there]

/-- The struct of a module, with its name and its fields. -/
theorem moduleRecord_eq_some {m : ModuleSpec} {definition : RecordDef}
    (h : moduleRecord m = .ok (some definition)) :
    ∃ schema, m.schema = some schema ∧ definition.name = m.name ∧
      definition.fields = schema.fields.map fun field =>
        { name := field.name, checker := field.checker } := by
  unfold moduleRecord at h
  cases written : m.schema with
  | none =>
      rw [written] at h
      cases h
  | some schema =>
      rw [written] at h
      rcases map_eq_ok.mp h with ⟨record, made, same⟩
      cases same
      rcases map_eq_ok.mp made with ⟨fields, given, rfl⟩
      exact ⟨schema, rfl, rfl, recordFields_eq_map given⟩

/-- A struct of the compiled modules is the struct that the check found under its name. -/
theorem structOf?_of_mem_records {modules : List ModuleSpec} {program : Program}
    (compiled : compileModules modules = .ok program) (distinct : (modules.map (·.name)).Nodup)
    {definition : RecordDef} (member : definition ∈ program.records) :
    ∃ schema, structOf? modules definition.name = some schema ∧
      definition.fields = schema.fields.map fun field =>
        { name := field.name, checker := field.checker } := by
  rcases List.mem_filterMap.mp member with ⟨made, inProgram, has⟩
  rcases exists_mem_of_forall₂ (compileModules_forall₂ compiled) inProgram with
    ⟨m, inModules, here⟩
  have record := compileModule_record here
  rw [has] at record
  rcases moduleRecord_eq_some record with ⟨schema, written, named, fields⟩
  refine ⟨schema, ?_, fields⟩
  rw [structOf?, named, find?_of_nodup distinct inModules]
  exact written

/-- The structs of a compiled file form no cycle. -/
theorem wellFounded_needs {defaultModule : String} {file : Surface.SourceFile} {program : Program}
    (h : compileFile defaultModule file = .ok program) : WellFounded (Needs program.records) := by
  rcases bind_eq_ok.mp h with ⟨modules, lowered, compiled⟩
  have distinct := (lowerFile_madeOf lowered).distinct
  have checked : checkCycles modules = .ok () := by
    rcases bind_eq_ok.mp compiled with ⟨_, checked, -⟩
    exact checked
  refine Subrelation.wf ?_ (wellFounded_of_checkCycles checked)
  rintro inner outer ⟨definition, member, rfl, ⟨field, inFields, rfl⟩, isStruct⟩
  rcases structOf?_of_mem_records compiled distinct member with ⟨schema, found, fields⟩
  rcases List.mem_map.mp isStruct with ⟨other, inRecords, named⟩
  rcases structOf?_of_mem_records compiled distinct inRecords with ⟨schema', found', -⟩
  rw [fields] at inFields
  rcases List.mem_map.mp inFields with ⟨written, inSchema, rfl⟩
  exact ⟨schema, found, ⟨written, inSchema, rfl⟩, by rw [← named, found']; rfl⟩

end Compile
end Clausal
