import Mathlib.Data.List.Nodup
import Clausal.Machine.Record
import Clausal.Proofs.Outcome

/-!
# Changing a record and building it anew

`RecordSchema.construct` makes a new list of fields, each from what a map gives for it or from its default.
`RecordSchema.updateFields` goes through the same fields but works on a list that is there, and touches what
the map gives only.  `fieldValue` is the part they share.  `updateFields_eq_construct` brings the two
together: the fields that have been passed stand in front, unchanged from then on, and those to come still
have the values they were built with.

Main statement: `update_eq_construct`.  Changing a record by a map is building one from both maps, the one it
was built from and the one it is changed by, of which the second comes first.
-/

namespace Clausal
namespace Machine

open ValueModule (given?)
open Outcome

/-! ## One field -/

/-- A field of a schema: its name, its module and its default. -/
abbrev FieldSlot := String × ValueModule × Value

/-- The value that a new record gets for a field. -/
def fieldValue (slot : FieldSlot) (mapping : Value) : Except FieldFailure Value :=
  match given? mapping slot.1 with
  | none => .ok slot.2.2
  | some raw =>
      match slot.2.1.validate raw with
      | .error diagnostic => .error ⟨slot.1, raw, diagnostic⟩
      | .ok value => .ok value

section Fields

variable {slot : FieldSlot} {slots : List FieldSlot} {mapping raw : Value}
  {values : List (String × Value)}

theorem fieldValue_congr {mapping' : Value} (same : given? mapping slot.1 = given? mapping' slot.1) :
    fieldValue slot mapping = fieldValue slot mapping' := by
  unfold fieldValue
  rw [same]

/-- A field fails where a value is given for it and its module refuses the value. -/
theorem fieldValue_eq_error {failure : FieldFailure}
    (h : fieldValue slot mapping = .error failure) :
    slot.1 = failure.field ∧ given? mapping slot.1 = some failure.value ∧
      slot.2.1.validate failure.value = .error failure.diagnostic := by
  unfold fieldValue at h
  split at h
  next => cases h
  next raw found =>
    split at h
    next diagnostic refused =>
      cases h
      exact ⟨rfl, found, refused⟩
    next => cases h

theorem validate_of_fieldValue {value : Value} (h : fieldValue slot mapping = .ok value)
    (found : given? mapping slot.1 = some raw) : slot.2.1.validate raw = .ok value := by
  simp only [fieldValue, found] at h
  split at h
  next => cases h
  next accepted =>
    cases h
    exact accepted

theorem construct_cons :
    ValueModule.construct (slot :: slots) mapping
      = fieldValue slot mapping >>= fun value =>
          (ValueModule.construct slots mapping).map ((slot.1, value) :: ·) := by
  rcases slot with ⟨field, checker, fallback⟩
  simp only [ValueModule.construct, fieldValue]
  cases given? mapping field with
  | none => rfl
  | some raw =>
      dsimp only
      cases checker.validate raw <;> rfl

theorem updateFields_cons_of_absent (absent : given? mapping slot.1 = none) :
    RecordSchema.updateFields mapping (slot :: slots) values
      = RecordSchema.updateFields mapping slots values := by
  simp only [RecordSchema.updateFields, absent]

theorem updateFields_cons_of_given (found : given? mapping slot.1 = some raw) :
    RecordSchema.updateFields mapping (slot :: slots) values
      = fieldValue slot mapping >>= fun value =>
          RecordSchema.updateFields mapping slots (RecordSchema.setField slot.1 value values) := by
  simp only [RecordSchema.updateFields, fieldValue, found]
  cases slot.2.1.validate raw <;> rfl

/-- A field that stands behind others is set in its place. -/
theorem setField_append {field : String} {held : Value} {before after : List (String × Value)}
    (fresh : field ∉ before.map Prod.fst) (value : Value) :
    RecordSchema.setField field value (before ++ (field, held) :: after)
      = before ++ (field, value) :: after := by
  induction before with
  | nil => simp [RecordSchema.setField]
  | cons entry rest ih =>
      rw [List.map_cons, List.mem_cons, not_or] at fresh
      have differs : (entry.1 == field) = false := by simpa using Ne.symm fresh.1
      simp only [List.cons_append, RecordSchema.setField, differs, ih fresh.2]
      rfl

/-- Setting a field leaves the others alone. -/
theorem find?_setField {field other : String} (differs : other ≠ field) (value : Value)
    (values : List (String × Value)) :
    (RecordSchema.setField field value values).find? (fun entry => entry.1 == other)
      = values.find? fun entry => entry.1 == other := by
  have passed : (field == other) = false := by simpa using Ne.symm differs
  induction values with
  | nil => simp [RecordSchema.setField, passed]
  | cons entry rest ih =>
      simp only [RecordSchema.setField]
      by_cases here : entry.1 = field
      · rw [if_pos (by simpa using here), here, List.find?_cons, List.find?_cons, here, passed]
      · rw [if_neg (by simpa using here), List.find?_cons, List.find?_cons, ih]

end Fields

/-! ## All fields -/

/-- The first field, in the order of declaration, whose value in a map is refused. -/
def FirstRefused (slots : List FieldSlot) (mapping : Value) (failure : FieldFailure) : Prop :=
  ∃ before slot after, slots = before ++ slot :: after ∧
    (∀ earlier ∈ before, ∀ raw, given? mapping earlier.1 = some raw →
      ∃ value, earlier.2.1.validate raw = .ok value) ∧
    slot.1 = failure.field ∧ given? mapping slot.1 = some failure.value ∧
    slot.2.1.validate failure.value = .error failure.diagnostic

section Update

variable {slots : List FieldSlot} {old new merged : Value} {values updated : List (String × Value)}

/-- Fields that a map does not give keep their values. -/
theorem find?_updateFields (h : RecordSchema.updateFields new slots values = .ok updated)
    {other : String} (absent : given? new other = none) :
    updated.find? (fun entry => entry.1 == other) = values.find? fun entry => entry.1 == other := by
  induction slots generalizing values with
  | nil =>
      cases h
      rfl
  | cons slot rest ih =>
      cases changed : given? new slot.1 with
      | none =>
          rw [updateFields_cons_of_absent changed] at h
          exact ih h
      | some raw =>
          rw [updateFields_cons_of_given changed] at h
          rcases bind_eq_ok.mp h with ⟨value, -, there⟩
          have differs : other ≠ slot.1 := by
            rintro rfl
            rw [absent] at changed
            cases changed
          rw [ih there, find?_setField differs]

theorem firstRefused_of_updateFields {failure : FieldFailure}
    (h : RecordSchema.updateFields new slots values = .error failure) :
    FirstRefused slots new failure := by
  induction slots generalizing values with
  | nil => cases h
  | cons slot rest ih =>
      -- A field that is not given, or whose value is accepted, goes to those in front.
      have later : ∀ {values}, RecordSchema.updateFields new rest values = .error failure →
          (∀ raw, given? new slot.1 = some raw → ∃ value, slot.2.1.validate raw = .ok value) →
          FirstRefused (slot :: rest) new failure := by
        intro values failed passes
        rcases ih failed with ⟨before, refused, after, rfl, accepted, here⟩
        exact ⟨slot :: before, refused, after, rfl, List.forall_mem_cons.mpr ⟨passes, accepted⟩,
          here⟩
      cases changed : given? new slot.1 with
      | none =>
          rw [updateFields_cons_of_absent changed] at h
          refine later h ?_
          rw [changed]
          exact nofun
      | some raw =>
          rw [updateFields_cons_of_given changed] at h
          cases here : fieldValue slot new with
          | error failure' =>
              rw [here] at h
              cases h
              exact ⟨[], slot, rest, rfl, List.forall_mem_nil _, fieldValue_eq_error here⟩
          | ok value =>
              rw [here] at h
              exact later h fun raw found => ⟨value, validate_of_fieldValue here found⟩

/-- Fields that were built from `old` and are changed by `new`, while those before them stay as they are,
become the fields that are built from `merged`. -/
theorem updateFields_eq_construct (distinct : (slots.map Prod.fst).Nodup)
    (both : ∀ slot ∈ slots, given? merged slot.1 = (given? new slot.1).or (given? old slot.1))
    {before : List (String × Value)} (apart : ∀ slot ∈ slots, slot.1 ∉ before.map Prod.fst)
    (built : ValueModule.construct slots old = .ok values) :
    RecordSchema.updateFields new slots (before ++ values)
      = (ValueModule.construct slots merged).map (before ++ ·) := by
  induction slots generalizing before values with
  | nil =>
      simp only [ValueModule.construct] at built
      cases built
      simp only [ValueModule.construct]
      rfl
  | cons slot rest ih =>
      rw [List.map_cons, List.nodup_cons] at distinct
      rw [List.forall_mem_cons] at both apart
      rw [construct_cons] at built
      rcases bind_eq_ok.mp built with ⟨held, here, rest_built⟩
      rcases map_eq_ok.mp rest_built with ⟨others, there, rfl⟩
      -- With this field in front, whatever its value, the others become what they are to become.
      have others_eq : ∀ value : Value,
          RecordSchema.updateFields new rest (before ++ (slot.1, value) :: others)
            = ((ValueModule.construct rest merged).map ((slot.1, value) :: ·)).map (before ++ ·) := by
        intro value
        have further : ∀ other ∈ rest, other.1 ∉ (before ++ [(slot.1, value)]).map Prod.fst := by
          intro other member inFront
          rw [List.map_append, List.mem_append, List.map_singleton, List.mem_singleton] at inFront
          rcases inFront with inFront | same
          · exact apart.2 other member inFront
          · exact distinct.1 (same ▸ List.mem_map_of_mem member)
        have step := ih distinct.2 both.2 further there
        rw [List.append_assoc, List.singleton_append] at step
        rw [step]
        cases ValueModule.construct rest merged <;> simp [Except.map]
      rw [construct_cons]
      cases changed : given? new slot.1 with
      | none =>
          have kept : fieldValue slot merged = .ok held := by
            rw [← here]
            exact fieldValue_congr (by rw [both.1, changed, Option.none_or])
          rw [updateFields_cons_of_absent changed, others_eq, kept, ok_bind]
      | some raw =>
          have replaced : fieldValue slot merged = fieldValue slot new :=
            fieldValue_congr (by rw [both.1, changed, Option.some_or])
          rw [updateFields_cons_of_given changed, replaced]
          cases fieldValue slot new with
          | error failure => rfl
          | ok value => rw [ok_bind, ok_bind, setField_append apart.1, others_eq]

/-- Changing a record is building it anew.

Take a record that was built from the map `old`, and a map `merged` that gives for each field what `new`
gives, or else what `old` gives.  Changing the record by `new` has the same result as building one from
`merged`: the same record, or the same failure.  Fields that `new` does not give keep their values, and a
failure is that of the first field whose new value is refused. -/
theorem update_eq_construct {schema : RecordSchema} {record : Value}
    (distinct : (schema.fields.map Prod.fst).Nodup)
    (both : ∀ slot ∈ schema.fields,
      given? merged slot.1 = (given? new slot.1).or (given? old slot.1))
    (built : schema.construct old = .ok record) :
    schema.update record new = schema.construct merged ∧
      (∀ updated field, schema.update record new = .ok updated → given? new field = none →
        updated.field? field = record.field? field) ∧
      ∀ failure, schema.update record new = .error failure →
        FirstRefused schema.fields new failure := by
  rcases map_eq_ok.mp built with ⟨values, fields, rfl⟩
  refine ⟨?_, ?_, ?_⟩
  · have same : RecordSchema.updateFields new schema.fields ([] ++ values) = _ :=
      updateFields_eq_construct distinct both (by simp) fields
    rw [List.nil_append] at same
    simp only [RecordSchema.update, RecordSchema.construct, same]
    cases ValueModule.construct schema.fields merged <;> rfl
  · intro updated field changed absent
    rcases map_eq_ok.mp changed with ⟨others, there, rfl⟩
    simp only [Value.field?, find?_updateFields there absent]
  · intro failure failed
    exact firstRefused_of_updateFields (map_eq_error.mp failed)

/-- A struct with a name that must be given, a grade that may be written as a text, and a count. -/
def pupilSchema : RecordSchema :=
  { name := "Pupil"
    fields := [("name", .texts none 1 none none, .nil), ("grade", .atoms ["high", "low"], .atom "high"),
      ("count", .integers (some 0) none (some 0), .int 0)] }

/-- A pupil with a name and a count is given a grade and another count, both under text keys.  Where the
grade and the count are refused, the grade is reported. -/
theorem update_eq_construct_pupil :
    let old := Value.map [(.atom "count", .int 5), (.text "name", .text "ann")]
    let new := Value.map [(.text "grade", .text "low"), (.text "count", .int 7)]
    let wrong := Value.map [(.atom "count", .int (-1)), (.atom "grade", .int 3)]
    let pupil (grade : String) (count : Int) : Value :=
      .record "Pupil" [("name", .text "ann"), ("grade", .atom grade), ("count", .int count)]
    pupilSchema.construct old = .ok (pupil "high" 5) ∧
      pupilSchema.update (pupil "high" 5) new = .ok (pupil "low" 7) ∧
      pupilSchema.construct (.map [(.text "count", .int 7), (.atom "grade", .text "low"),
        (.atom "name", .text "ann")]) = .ok (pupil "low" 7) ∧
      ∃ failure, pupilSchema.update (pupil "high" 5) wrong = .error failure ∧
        failure.field = "grade" ∧ FirstRefused pupilSchema.fields wrong failure := by
  intro old new wrong pupil
  have built : pupilSchema.construct old = .ok (pupil "high" 5) := by with_unfolding_all rfl
  have distinct : (pupilSchema.fields.map Prod.fst).Nodup := by decide
  have changed : pupilSchema.update (pupil "high" 5) new = .ok (pupil "low" 7) := by
    with_unfolding_all rfl
  have merged : ∀ slot ∈ pupilSchema.fields,
      given? (.map [(.text "count", .int 7), (.atom "grade", .text "low"),
        (.atom "name", .text "ann")]) slot.1 = (given? new slot.1).or (given? old slot.1) := by
    simp only [pupilSchema, List.forall_mem_cons]
    exact ⟨by with_unfolding_all rfl, by with_unfolding_all rfl, by with_unfolding_all rfl,
      List.forall_mem_nil _⟩
  have refused : ∃ failure, pupilSchema.update (pupil "high" 5) wrong = .error failure ∧
      failure.field = "grade" := ⟨_, by with_unfolding_all rfl, rfl⟩
  have whole : ∀ slot ∈ pupilSchema.fields,
      given? (.map [(.atom "count", .int (-1)), (.atom "grade", .int 3),
        (.atom "name", .text "ann")]) slot.1 = (given? wrong slot.1).or (given? old slot.1) := by
    simp only [pupilSchema, List.forall_mem_cons]
    exact ⟨by with_unfolding_all rfl, by with_unfolding_all rfl, by with_unfolding_all rfl,
      List.forall_mem_nil _⟩
  rcases refused with ⟨failure, failed, named⟩
  refine ⟨built, changed, ?_, failure, failed, named, ?_⟩
  · exact (update_eq_construct distinct merged built).1.symm.trans changed
  · exact (update_eq_construct distinct whole built).2.2 failure failed

end Update

end Machine
end Clausal
