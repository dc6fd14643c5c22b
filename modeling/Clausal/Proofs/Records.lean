import Clausal.Proofs.Preservation
import Clausal.Proofs.Structs

/-!
# Records keep the shape of their structs

A value is sound for some structs if every record in it, however deep, that carries the name of one of
them has exactly the fields of that struct, each once and in the order of declaration.  Programs can
neither make a record of another shape nor change the shape of one.

* Value modules whose record modules have the shape of their structs keep soundness
  (`ValueModule.Faithful`), and so do the record operations (`applyRecordOp_sound`).  An update writes
  into fields that are there.
* Building a machine makes such modules and schemas only (`keepsBuilt_of_build`).

Soundness is hereditary, so whole calls keep it.  Main statement: `call_sound`.
-/

namespace Clausal

open Clausal.Core (RecordDef RecordOp)

/-! ## Soundness -/

/-- These are the names of the fields of the struct of a name, each once and in order, if there is
such a struct. -/
def Shaped (structs : List RecordDef) (name : String) (names : List String) : Prop :=
  ∀ definition ∈ structs, definition.name = name →
    names = definition.fields.map (·.name) ∧ names.Nodup

/-- Every record that occurs in a value has the shape of its struct. -/
def Sound (structs : List RecordDef) (value : Value) : Prop :=
  ∀ name fields, Value.Occurs (.record name fields) value →
    Shaped structs name (fields.map Prod.fst)

section Soundness

variable {structs : List RecordDef}

theorem sound_record_iff {name : String} {fields : List (String × Value)} :
    Sound structs (.record name fields) ↔
      Shaped structs name (fields.map Prod.fst) ∧ ∀ field ∈ fields, Sound structs field.2 := by
  constructor
  · intro sound
    refine ⟨sound name fields .self, ?_⟩
    intro field member type inner occurs
    exact sound type inner (.field member occurs)
  · rintro ⟨shaped, sound⟩ type inner occurs
    cases occurs with
    | self => exact shaped
    | field member inside => exact sound _ member type inner inside

/-- Only records can be unsound. -/
theorem hereditary_sound (structs : List RecordDef) : Hereditary (Sound structs) where
  int n := by rintro name fields ⟨⟩
  float x := by rintro name fields ⟨⟩
  bool b := by rintro name fields ⟨⟩
  text s := by rintro name fields ⟨⟩
  binary bytes := by rintro name fields ⟨⟩
  atom a := by rintro name fields ⟨⟩
  nil := by rintro name fields ⟨⟩
  list := by
    intro items
    constructor
    · intro sound item member name fields occurs
      exact sound name fields (.item member occurs)
    · intro sound name fields occurs
      cases occurs with
      | item member inside => exact sound _ member name fields inside
  tuple := by
    intro items
    constructor
    · intro sound item member name fields occurs
      exact sound name fields (.component member occurs)
    · intro sound name fields occurs
      cases occurs with
      | component member inside => exact sound _ member name fields inside
  map := by
    intro entries
    constructor
    · intro sound entry member
      refine ⟨?_, ?_⟩
      · intro name fields occurs
        exact sound name fields (.key member occurs)
      · intro name fields occurs
        exact sound name fields (.value member occurs)
    · intro sound name fields occurs
      cases occurs with
      | key member inside => exact (sound _ member).1 name fields inside
      | value member inside => exact (sound _ member).2 name fields inside
  fields := by
    intro name fields sound
    exact (sound_record_iff.mp sound).2

end Soundness

/-! ## Value modules -/

namespace ValueModule

/-- A module of numbers, texts, atoms or lists, with elements of this kind as well. -/
def isBounded : ValueModule → Bool
  | records .. | foreign .. => false
  | listsOf _ _ element => element.isBounded
  | _ => true

mutual

/-- A module whose records, and those of its parts, have the shape of their structs.  A foreign one
has to answer sound values with sound values. -/
def Faithful (structs : List RecordDef) : ValueModule → Prop
  | records name fields => Shaped structs name (fields.map Prod.fst) ∧ FaithfulFields structs fields
  | listsOf _ _ element => element.Faithful structs
  | foreign check start =>
      (∀ value, Sound structs value → Delivers (Sound structs) (check value)) ∧
        Delivers (Sound structs) start
  | _ => True

def FaithfulFields (structs : List RecordDef) : List (String × ValueModule × Value) → Prop
  | [] => True
  | (_, checker, fallback) :: rest =>
      checker.Faithful structs ∧ Sound structs fallback ∧ FaithfulFields structs rest

end

theorem faithfulFields_iff {structs : List RecordDef}
    {fields : List (String × ValueModule × Value)} :
    FaithfulFields structs fields ↔
      ∀ entry ∈ fields, entry.2.1.Faithful structs ∧ Sound structs entry.2.2 := by
  induction fields with
  | nil => simp [FaithfulFields]
  | cons entry rest ih =>
      rcases entry with ⟨name, checker, fallback⟩
      simp [FaithfulFields, ih, and_assoc]

theorem faithful_of_isBounded {structs : List RecordDef} {checker : ValueModule}
    (bounded : checker.isBounded = true) : checker.Faithful structs := by
  match checker with
  | records .. | foreign .. => cases bounded
  | listsOf min max element =>
      simp only [isBounded] at bounded
      simp only [Faithful]
      exact faithful_of_isBounded bounded
  | integers .. | floats .. | texts .. | atoms .. | lists .. => trivial

section Validation

variable {structs : List RecordDef}

theorem given?_sound {mapping raw : Value} {field : String} (sound : Sound structs mapping)
    (given : given? mapping field = some raw) : Sound structs raw := by
  rcases Option.or_eq_some_iff.mp given with asAtom | ⟨_, asText⟩
  · exact (hereditary_sound structs).mapGet sound asAtom
  · exact (hereditary_sound structs).mapGet sound asText

theorem mapping?_sound {name : String} {value mapping : Value} (sound : Sound structs value)
    (found : mapping? name value = some mapping) : Sound structs mapping := by
  cases value with
  | map entries =>
      cases found
      exact sound
  | record type fields =>
      unfold mapping? at found
      dsimp only at found
      split at found
      · cases found
        refine (hereditary_sound structs).ofEntries ?_
        intro entry member
        rcases List.mem_map.mp member with ⟨field, inFields, rfl⟩
        exact ⟨(hereditary_sound structs).atom _, (sound_record_iff.mp sound).2 field inFields⟩
      · cases found
  | _ => cases found

theorem accept_delivers {P : Value → Prop} {value : Value} (held : P value)
    (checks : List (Bool × String)) : Delivers P (accept value checks) := by
  intro accepted h
  rw [(accept_eq_ok_iff.mp h).1]
  exact held

theorem validateLength_delivers {min : Nat} {max : Option Nat} {value : Value}
    (sound : Sound structs value) :
    Delivers (fun items => ∀ item ∈ items, Sound structs item) (validateLength min max value) := by
  cases value with
  | list items =>
      unfold validateLength
      dsimp only
      split
      · exact .ok ((hereditary_sound structs).list.mp sound)
      · exact .error _
  | _ => exact .error _

theorem validateElements_delivers {validate : Value → Except String Value} {items : List Value}
    (each : ∀ item ∈ items, Delivers (Sound structs) (validate item)) (index : Nat) :
    Delivers (fun values => ∀ value ∈ values, Sound structs value)
      (validateElements validate index items) := by
  induction items generalizing index with
  | nil => exact .ok (List.forall_mem_nil _)
  | cons item items ih =>
      rw [List.forall_mem_cons] at each
      simp only [validateElements]
      cases outcome : validate item with
      | error diagnostic => exact .error _
      | ok value =>
          refine (ih each.2 (index + 1)).map ?_
          intro values sound
          exact List.forall_mem_cons.mpr ⟨each.1 value outcome, sound⟩

mutual

/-- A faithful module accepts sound values as sound values. -/
theorem validate_sound (checker : ValueModule) (faithful : checker.Faithful structs)
    {value : Value} (sound : Sound structs value) :
    Delivers (Sound structs) (checker.validate value) := by
  have hereditary := hereditary_sound structs
  -- The bounded modules give back a leaf, or a list of what their elements became; only a module of records
  -- makes a record.
  cases checker with
  | integers min max default =>
      simp only [validate]
      cases value with
      | int n => exact accept_delivers sound _
      | _ => exact .error _
  | floats min max default =>
      simp only [validate, validateFloat]
      cases value.float? with
      | none => exact .error _
      | some x => exact accept_delivers (hereditary.float x) _
  | texts pattern min max default =>
      simp only [validate]
      cases value with
      | text s => exact accept_delivers sound _
      | _ => exact .error _
  | atoms members =>
      simp only [validate, validateAtom]
      split
      · split
        · exact .ok (hereditary.atom _)
        · exact .error _
      · split
        · exact .ok (hereditary.atom _)
        · exact .error _
      · exact .error _
  | lists min max =>
      simp only [validate]
      exact (validateLength_delivers sound).map fun items held => hereditary.list.mpr held
  | listsOf min max element =>
      simp only [validate]
      simp only [Faithful] at faithful
      cases length : validateLength min max value with
      | error diagnostic => exact .error _
      | ok items =>
          have held := validateLength_delivers sound items length
          have each : ∀ item ∈ items, Delivers (Sound structs) (element.validate item) :=
            fun item member => validate_sound element faithful (held item member)
          exact (validateElements_delivers each 0).map fun values held => hereditary.list.mpr held
  | records name fields =>
      simp only [validate]
      simp only [Faithful] at faithful
      cases found : mapping? name value with
      | none => exact .error _
      | some mapping =>
          have made := construct_sound fields faithful.2 (mapping?_sound sound found)
          dsimp only
          cases outcome : construct fields mapping with
          | error failure => exact .error _
          | ok values =>
              rcases made values outcome with ⟨names, held⟩
              exact .ok (sound_record_iff.mpr ⟨names ▸ faithful.1, held⟩)
  | foreign check start =>
      simp only [validate]
      simp only [Faithful] at faithful
      exact faithful.1 value sound

/-- A new record has the fields it is made for, in their order. -/
theorem construct_sound (fields : List (String × ValueModule × Value))
    (faithful : FaithfulFields structs fields) {mapping : Value} (sound : Sound structs mapping) :
    Delivers (fun values => values.map Prod.fst = fields.map Prod.fst ∧
      ∀ field ∈ values, Sound structs field.2) (construct fields mapping) := by
  match fields with
  | [] =>
      simp only [construct]
      exact .ok ⟨rfl, fun _ member => nomatch member⟩
  | (field, checker, fallback) :: rest =>
      simp only [FaithfulFields] at faithful
      have others := construct_sound rest faithful.2.2 sound
      simp only [construct]
      cases given : given? mapping field with
      | none =>
          -- An absent field gets its fallback, which is sound in a faithful module.
          refine others.map ?_
          rintro values ⟨names, held⟩
          exact ⟨by simp [names], List.forall_mem_cons.mpr ⟨faithful.2.1, held⟩⟩
      | some raw =>
          have accepted := validate_sound checker faithful.1 (given?_sound sound given)
          dsimp only
          cases outcome : checker.validate raw with
          | error diagnostic => exact .error _
          | ok value =>
              refine others.map ?_
              rintro values ⟨names, held⟩
              exact ⟨by simp [names], List.forall_mem_cons.mpr ⟨accepted value outcome, held⟩⟩

end

/-- A value that a field refuses is one of those that were given. -/
theorem construct_failure_sound {fields : List (String × ValueModule × Value)} {mapping : Value}
    (sound : Sound structs mapping) {failure : FieldFailure}
    (failed : construct fields mapping = .error failure) : Sound structs failure.value := by
  induction fields with
  | nil => simp [construct] at failed
  | cons entry rest ih =>
      rcases entry with ⟨field, checker, fallback⟩
      -- A refusal that is not at this field comes from the rest, whatever is done with the values of the
      -- rest.
      have later {f : List (String × Value) → List (String × Value)}
          (stopped : (construct rest mapping).map f = .error failure) :
          Sound structs failure.value := by
        cases outcome : construct rest mapping with
        | ok values =>
            rw [outcome] at stopped
            cases stopped
        | error failure' =>
            rw [outcome] at stopped
            cases stopped
            exact ih outcome
      simp only [construct] at failed
      cases given : given? mapping field with
      | none =>
          rw [given] at failed
          exact later failed
      | some raw =>
          rw [given] at failed
          dsimp only at failed
          split at failed
          · cases failed
            exact given?_sound sound given
          · exact later failed

theorem default_sound {checker : ValueModule} (faithful : checker.Faithful structs) :
    Delivers (Sound structs) checker.default := by
  have hereditary := hereditary_sound structs
  have none_in : Sound structs (.list []) := hereditary.list.mpr (List.forall_mem_nil _)
  -- A default goes through the check of its own module, except for atoms and records.
  match checker with
  | integers _ _ (some n) => exact validate_sound _ faithful (hereditary.int n)
  | integers _ _ none => exact .error _
  | floats _ _ x => exact validate_sound _ faithful (hereditary.float x)
  | texts _ _ _ (some s) => exact validate_sound _ faithful (hereditary.text s)
  | texts _ _ _ none => exact .error _
  | atoms (member :: _) => exact .ok (hereditary.atom member)
  | atoms [] => exact .error _
  | lists .. => exact validate_sound _ faithful none_in
  | listsOf .. => exact validate_sound _ faithful none_in
  | records name fields =>
      simp only [Faithful] at faithful
      refine .ok (sound_record_iff.mpr ⟨?_, ?_⟩)
      · simpa [Function.comp_def] using faithful.1
      · intro field member
        rcases List.mem_map.mp member with ⟨entry, inFields, rfl⟩
        exact (faithfulFields_iff.mp faithful.2 entry inFields).2
  | foreign check start =>
      simp only [Faithful] at faithful
      exact faithful.2

end Validation

end ValueModule

/-! ## Record operations -/

namespace Machine

open Outcome

/-- A schema of one of the structs, with its fields in order and faithful modules. -/
structure RecordSchema.Faithful (structs : List RecordDef) (schema : RecordSchema) : Prop where
  declared : ∃ definition ∈ structs, definition.name = schema.name
  shaped : Shaped structs schema.name (schema.fields.map Prod.fst)
  fields : ValueModule.FaithfulFields structs schema.fields

section Operations

variable {structs : List RecordDef} {schema : RecordSchema}

theorem RecordSchema.construct_sound (faithful : schema.Faithful structs) {mapping : Value}
    (sound : Sound structs mapping) : Delivers (Sound structs) (schema.construct mapping) := by
  refine (ValueModule.construct_sound schema.fields faithful.fields sound).map ?_
  rintro values ⟨names, held⟩
  exact sound_record_iff.mpr ⟨names ▸ faithful.shaped, held⟩

/-- A field that is there is set in its place. -/
theorem map_fst_setField {name : String} {fields : List (String × Value)}
    (present : name ∈ fields.map Prod.fst) (value : Value) :
    (RecordSchema.setField name value fields).map Prod.fst = fields.map Prod.fst := by
  induction fields with
  | nil => cases present
  | cons field rest ih =>
      rcases field with ⟨n, v⟩
      simp only [RecordSchema.setField]
      by_cases here : n = name
      · rw [if_pos (by simpa using here)]
        rfl
      · rw [if_neg (by simpa using here), List.map_cons, List.map_cons]
        have later : name ∈ rest.map Prod.fst := by
          rcases List.mem_cons.mp present with same | later
          · exact absurd same.symm here
          · exact later
        rw [ih later]

theorem setField_sound {name : String} {value : Value} {fields : List (String × Value)}
    (sound : Sound structs value) (held : ∀ field ∈ fields, Sound structs field.2) :
    ∀ field ∈ RecordSchema.setField name value fields, Sound structs field.2 := by
  induction fields with
  | nil => simpa [RecordSchema.setField] using sound
  | cons field rest ih =>
      rw [List.forall_mem_cons] at held
      simp only [RecordSchema.setField]
      split
      · exact List.forall_mem_cons.mpr ⟨sound, held.2⟩
      · exact List.forall_mem_cons.mpr ⟨held.1, ih held.2⟩

/-- An update sets fields that are there, so it changes neither their names nor their order. -/
theorem updateFields_sound {mapping : Value} (given : Sound structs mapping)
    {fields : List (String × ValueModule × Value)} {values : List (String × Value)}
    (faithful : ValueModule.FaithfulFields structs fields)
    (present : ∀ entry ∈ fields, entry.1 ∈ values.map Prod.fst)
    (held : ∀ field ∈ values, Sound structs field.2) :
    Delivers (fun updated => updated.map Prod.fst = values.map Prod.fst ∧
      ∀ field ∈ updated, Sound structs field.2)
      (RecordSchema.updateFields mapping fields values) := by
  induction fields generalizing values with
  | nil => exact .ok ⟨rfl, held⟩
  | cons entry rest ih =>
      rcases entry with ⟨name, checker, fallback⟩
      simp only [ValueModule.FaithfulFields] at faithful
      rw [List.forall_mem_cons] at present
      simp only [RecordSchema.updateFields]
      cases found : ValueModule.given? mapping name with
      | none => exact ih faithful.2.2 present.2 held
      | some raw =>
          dsimp only
          have raw_sound := ValueModule.given?_sound given found
          cases outcome : checker.validate raw with
          | error diagnostic => exact .error _
          | ok value =>
              have accepted : Sound structs value :=
                ValueModule.validate_sound checker faithful.1 raw_sound value outcome
              -- The field is there already, so setting it adds no name.
              have names := map_fst_setField present.1 value
              rw [← names]
              refine ih faithful.2.2 ?_ (setField_sound accepted held)
              rw [names]
              exact present.2

theorem updateFields_failure_sound {mapping : Value} (given : Sound structs mapping)
    {fields : List (String × ValueModule × Value)} {values : List (String × Value)}
    {failure : FieldFailure}
    (failed : RecordSchema.updateFields mapping fields values = .error failure) :
    Sound structs failure.value := by
  induction fields generalizing values with
  | nil => cases failed
  | cons entry rest ih =>
      rcases entry with ⟨name, checker, fallback⟩
      simp only [RecordSchema.updateFields] at failed
      split at failed
      next => exact ih failed
      next raw found =>
        split at failed
        · cases failed
          exact ValueModule.given?_sound given found
        · exact ih failed

theorem RecordSchema.update_sound (faithful : schema.Faithful structs) {record mapping : Value}
    (same : record.isRecordOf schema.name = true) (sound : Sound structs record)
    (given : Sound structs mapping) :
    Delivers (Sound structs) (schema.update record mapping) := by
  cases record with
  | record name values =>
      have named : name = schema.name := by simpa [Value.isRecordOf] using same
      subst named
      rcases sound_record_iff.mp sound with ⟨shaped, held⟩
      -- The record is sound, so its fields are those of the schema.
      have names : values.map Prod.fst = schema.fields.map Prod.fst := by
        rcases faithful.declared with ⟨definition, declared, named⟩
        calc values.map Prod.fst = definition.fields.map (·.name) :=
              (shaped definition declared named).1
          _ = schema.fields.map Prod.fst := (faithful.shaped definition declared named).1.symm
      have present : ∀ entry ∈ schema.fields, entry.1 ∈ values.map Prod.fst := by
        intro entry member
        rw [names]
        exact List.mem_map_of_mem member
      refine (updateFields_sound given faithful.fields present held).map ?_
      rintro updated ⟨kept, heldUpdated⟩
      exact sound_record_iff.mpr ⟨kept ▸ shaped, heldUpdated⟩
  | _ => cases same

theorem outcomeValue_sound {result : Except FieldFailure Value}
    (delivered : Delivers (Sound structs) result)
    (failed : ∀ failure, result = .error failure → Sound structs failure.value) :
    Sound structs (outcomeValue result) := by
  have hereditary := hereditary_sound structs
  cases result with
  | ok record => exact hereditary.okTuple (delivered record rfl)
  | error failure =>
      refine hereditary.errorTuple (hereditary.tuple.mpr ?_)
      intro item member
      simp only [List.mem_cons, List.not_mem_nil, or_false] at member
      rcases member with rfl | rfl | rfl
      · exact hereditary.atom _
      · exact failed failure rfl
      · exact hereditary.text _

theorem construct_failed_sound {mapping : Value} (sound : Sound structs mapping) :
    ∀ failure, schema.construct mapping = .error failure → Sound structs failure.value := by
  intro failure failed
  unfold RecordSchema.construct at failed
  cases outcome : ValueModule.construct schema.fields mapping with
  | ok values =>
      rw [outcome] at failed
      cases failed
  | error failure' =>
      rw [outcome] at failed
      cases failed
      exact ValueModule.construct_failure_sound sound outcome

theorem update_failed_sound {record mapping : Value} (sound : Sound structs mapping) :
    ∀ failure, schema.update record mapping = .error failure → Sound structs failure.value := by
  intro failure failed
  cases record with
  | record name values =>
      simp only [RecordSchema.update] at failed
      cases outcome : RecordSchema.updateFields mapping schema.fields values with
      | ok updated =>
          rw [outcome] at failed
          cases failed
      | error failure' =>
          rw [outcome] at failed
          cases failed
          exact updateFields_failure_sound sound outcome
  | _ => cases failed

/-- Record operations make sound values of sound values. -/
theorem applyRecordOp_sound (faithful : schema.Faithful structs) (struct : String) (op : RecordOp)
    {args : List Value} (sound : ∀ arg ∈ args, Sound structs arg) :
    Delivers (Sound structs) (applyRecordOp schema struct op args) := by
  have hereditary := hereditary_sound structs
  have expected (value : Value) : Sound structs (mapExpected value) :=
    hereditary.errorTuple (hereditary.text _)
  -- A refusal is raised by `new` and given back as a value by the other two; in both, the value that was
  -- refused is a part of the arguments.
  unfold applyRecordOp
  split
  next mapping =>
    have given := sound mapping (by simp)
    split
    · cases outcome : schema.construct mapping with
      | ok record => exact .ok (RecordSchema.construct_sound faithful given record outcome)
      | error failure => exact .error _
    · exact .ok (expected mapping)
  next mapping =>
    have given := sound mapping (by simp)
    split
    · exact .ok (outcomeValue_sound (RecordSchema.construct_sound faithful given)
        (construct_failed_sound given))
    · exact .ok (expected mapping)
  next record mapping =>
    have before := sound record (by simp)
    have given := sound mapping (by simp)
    split
    · exact .error _
    · next same =>
      split
      · have isRecord : record.isRecordOf schema.name = true := by simpa using same
        exact .ok (outcomeValue_sound (RecordSchema.update_sound faithful isRecord before given)
          (update_failed_sound given))
      · exact .ok (expected mapping)
  next => exact .error _

end Operations

/-! ## Building -/

section Building

variable {structs : List RecordDef}

/-- Everything in a registry and among some schemas is faithful. -/
structure FaithfulParts (structs : List RecordDef) (registry : Registry)
    (schemas : List (String × RecordSchema)) : Prop where
  modules {name : String} {checker : ValueModule} :
    registry.get? name = some checker → checker.Faithful structs
  schemas {name : String} {schema : RecordSchema} :
    schemas.lookup name = some schema → schema.Faithful structs

/-- A struct has its own shape. -/
theorem CompiledStructs.shaped (compiled : CompiledStructs structs) {definition : RecordDef}
    (member : definition ∈ structs) :
    Shaped structs definition.name (definition.fields.map (·.name)) := by
  intro other inStructs named
  cases compiled.unique other inStructs definition member named
  exact ⟨rfl, compiled.distinct definition member⟩

theorem faithful_of_ofDef (compiled : CompiledStructs structs) {registry : Registry}
    {schemas : List (String × RecordSchema)} (parts : FaithfulParts structs registry schemas)
    {definition : RecordDef} (member : definition ∈ structs) {schema : RecordSchema}
    (made : RecordSchema.ofDef registry definition = .ok schema) :
    schema.name = definition.name ∧ schema.Faithful structs := by
  rcases map_eq_ok.mp made with ⟨fields, bound, rfl⟩
  have related := bindFields_forall₂ bound
  have names : fields.map Prod.fst = definition.fields.map (·.name) := map_fst_of_bindFields bound
  have faithful : ValueModule.FaithfulFields structs fields := by
    refine ValueModule.faithfulFields_iff.mpr ?_
    intro entry inFields
    rcases Compile.exists_mem_of_forall₂ related inFields with ⟨field, _, _, registered, fallback⟩
    have checker := parts.modules registered
    refine ⟨checker, ?_⟩
    -- A field whose module has no default starts as `nil`, in which no record occurs.
    rw [fallback]
    unfold fallbackOf
    cases outcome : entry.2.1.default with
    | ok value => exact ValueModule.default_sound checker value outcome
    | error diagnostic => exact (hereditary_sound structs).nil
  exact ⟨rfl, ⟨definition, member, rfl⟩, names ▸ CompiledStructs.shaped compiled member, faithful⟩

/-- Building one more struct adds a faithful module and a faithful schema. -/
theorem FaithfulParts.step (compiled : CompiledStructs structs) {registry : Registry}
    {schemas : List (String × RecordSchema)} (parts : FaithfulParts structs registry schemas)
    {definition : RecordDef} (member : definition ∈ structs) {schema : RecordSchema}
    (made : RecordSchema.ofDef registry definition = .ok schema) :
    FaithfulParts structs (registry.insert definition.name schema.toModule)
      ((definition.name, schema) :: schemas) := by
  rcases faithful_of_ofDef compiled parts member made with ⟨_, faithful⟩
  refine ⟨?_, ?_⟩
  · intro name checker found
    by_cases same : name = definition.name
    · rw [same, Registry.get?_insert_self] at found
      cases found
      exact ⟨faithful.shaped, faithful.fields⟩
    · rw [Registry.get?_insert_of_ne _ _ same] at found
      exact parts.modules found
  · intro name other found
    rw [List.lookup_cons] at found
    split at found
    · cases found
      exact faithful
    · exact parts.schemas found

/-- A machine over bounded modules keeps soundness. -/
theorem keepsBuilt_of_build {program : Core.Program} {registry : Registry} {limit : Nat}
    {machine : Machine} (compiled : CompiledStructs program.records)
    (bounded : ∀ entry ∈ registry, entry.2.isBounded = true)
    (built : build program registry limit = .ok machine) :
    KeepsBuilt (Sound program.records) machine := by
  have start : FaithfulParts program.records registry [] := by
    refine ⟨?_, fun found => nomatch found⟩
    intro name checker found
    have member : (name, checker) ∈ registry := by
      rcases List.lookup_eq_some_iff.mp found with ⟨before, after, rfl, _⟩
      simp
    exact ValueModule.faithful_of_isBounded (bounded _ member)
  -- Each struct is built over what was built before it.
  have parts : FaithfulParts program.records machine.registry machine.schemas :=
    build_induction (P := fun _ registry schemas => FaithfulParts program.records registry schemas)
      (fun _ _ _ _ _ _ member parts _ made => parts.step compiled member made) start built
  exact ⟨fun registered => ValueModule.validate_sound _ (parts.modules registered),
    fun registered => ValueModule.default_sound (parts.modules registered),
    fun found => applyRecordOp_sound (parts.schemas found) _ _⟩

end Building

/-! ## Main statement -/

/-- Programs cannot forge or corrupt records: on a machine built over bounded modules for a compiled
file, a call of sound arguments that gives a value gives a sound one. -/
theorem call_sound {defaultModule : String} {file : Surface.SourceFile} {program : Core.Program}
    {registry : Registry} {limit : Nat} {machine : Machine}
    (compiled : Compile.compileFile defaultModule file = .ok program)
    (bounded : ∀ entry ∈ registry, entry.2.isBounded = true)
    (built : build program registry limit = .ok machine) {owner name : String} {args : List Value}
    (sound : ∀ arg ∈ args, Sound program.records arg) {result : Value}
    (called : machine.call owner name args = .ok result) : Sound program.records result := by
  have keeps := keepsBuilt_of_build (Compile.compiledStructs compiled) bounded built
  exact callWithin_delivers (hereditary_sound _) keeps machine.maxDepth owner name sound result
    called

/-- Two structs, the first of which holds records of the second, and a function that changes the
inner record of an outer one. -/
def orderFile : Surface.SourceFile :=
  let s := Span.synthetic
  let name := Surface.Expr.ident s
  let struct (fields : List (String × String)) : Surface.Member :=
    .struct ⟨fields.map fun (field, type) => ⟨field, name type, s⟩, s⟩
  let change : Surface.FunctionDef :=
    { name := "change", returnType := none, constraints := [], span := s
      params := [⟨"order", name "any", s⟩, ⟨"entries", name "any", s⟩]
      body := [.expr (.call s (.field s (name "Line") "update")
        [.field s (name "order") "line", name "entries"])] }
  { items :=
      [.block ⟨"Order", [struct [("number", "Count"), ("line", "Line")], .function change], s⟩,
       .block ⟨"Line", [struct [("item", "Count"), ("amount", "Count")]], s⟩]
    span := s }

def orderRegistry : Registry := [("Count", .integers (some 0) none (some 0))]

/-- An order whose line was given in part, and the line after a change. -/
def sampleOrder : Value :=
  .record "Order" [("number", .int 0), ("line", .record "Line" [("item", .int 0), ("amount", .int 3)])]

def changedLine : Value := .record "Line" [("item", .int 7), ("amount", .int 3)]

theorem orderFile_runs :
    ∃ program machine, Compile.compileFile "Main" orderFile = .ok program ∧
      build program orderRegistry 4 = .ok machine ∧
      program.records.find? (·.name == "Line")
        = some ⟨"Line", [⟨"item", "Count"⟩, ⟨"amount", "Count"⟩]⟩ ∧
      machine.call "Order" "new" [.map [(.atom "line", .map [(.text "amount", .int 3)])]]
        = .ok sampleOrder ∧
      machine.call "Order" "change" [sampleOrder, .map [(.atom "item", .int 7)]]
        = .ok (.ok changedLine) :=
  ⟨_, _, rfl, rfl, rfl, by with_unfolding_all rfl, by with_unfolding_all rfl⟩

/-- An order is made and its line is changed.  Each result is sound because the arguments are; a line
without an item would not be. -/
theorem call_sound_orderFile :
    ∃ program machine, Compile.compileFile "Main" orderFile = .ok program ∧
      build program orderRegistry 4 = .ok machine ∧
      machine.call "Order" "change" [sampleOrder, .map [(.atom "item", .int 7)]]
        = .ok (.ok changedLine) ∧
      Sound program.records sampleOrder ∧ Sound program.records (.ok changedLine) ∧
      ¬ Sound program.records (.record "Line" [("amount", .int 3)]) := by
  rcases orderFile_runs with ⟨program, machine, compiled, built, line, made, changed⟩
  have bounded : ∀ entry ∈ orderRegistry, entry.2.isBounded = true := by decide
  have hereditary := hereditary_sound program.records
  have plain : Sound program.records (.map [(.atom "item", .int 7)]) ∧
      Sound program.records (.map [(.atom "line", .map [(.text "amount", .int 3)])]) := by
    simp [hereditary.map, hereditary.atom, hereditary.text, hereditary.int]
  have order : Sound program.records sampleOrder :=
    call_sound compiled bounded built (List.forall_mem_singleton.mpr plain.2) made
  have result : Sound program.records (.ok changedLine) :=
    call_sound compiled bounded built
      (List.forall_mem_cons.mpr ⟨order, List.forall_mem_singleton.mpr plain.1⟩) changed
  refine ⟨program, machine, compiled, built, changed, order, result, ?_⟩
  intro sound
  have wrong := (sound _ _ .self _ (List.mem_of_find?_eq_some line) rfl).1
  exact absurd wrong (by decide)

end Machine
end Clausal
