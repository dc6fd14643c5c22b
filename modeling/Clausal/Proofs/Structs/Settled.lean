import Mathlib.Data.List.Forall2
import Clausal.Proofs.Records

/-!
# Values in normal form

What a value module accepts is in normal form: handed to the module again, it comes back unchanged.
The records of a struct are the exception.  A field that is left out gets the default of its module,
or `nil` where the module has none, and no module accepts `nil`.

`Settled` describes what a module or a default can give: each field of a record is settled in turn, or
it is `nil` for want of a default.  Main statement: a settled value is accepted as it is, unless it
holds such a `nil` (`ValueModule.revalidates`).
-/

namespace Clausal

open Clausal.Core (RecordDef RecordField RecordOp)
open Outcome

/-! ## Fields that are `nil` -/

/-- A field of a record of the named struct is `nil`, where the record is the value itself or one
that it holds in a field. -/
inductive Value.NilAt (struct field : String) : Value → Prop where
  | here {fields} (member : (field, .nil) ∈ fields) : NilAt struct field (.record struct fields)
  | inside {name fields entry} (member : entry ∈ fields) (deeper : NilAt struct field entry.2) :
      NilAt struct field (.record name fields)

/-- Some field is `nil`. -/
def Value.HasNil (value : Value) : Prop := ∃ struct field, value.NilAt struct field

theorem Value.hasNil_record_iff {name : String} {fields : List (String × Value)} :
    (Value.record name fields).HasNil ↔ ∃ entry ∈ fields, entry.2 = .nil ∨ entry.2.HasNil := by
  constructor
  · rintro ⟨struct, field, found⟩
    cases found with
    | here member => exact ⟨_, member, .inl rfl⟩
    | inside member deeper => exact ⟨_, member, .inr ⟨_, _, deeper⟩⟩
  · rintro ⟨⟨field, value⟩, member, unset | ⟨struct, field', deeper⟩⟩
    · cases unset
      exact ⟨name, field, .here member⟩
    · exact ⟨struct, field', .inside member deeper⟩

namespace ValueModule

/-- Whether a module is that of a struct. -/
def isStruct : ValueModule → Bool
  | records .. => true
  | _ => false

/-! ## Bounded modules -/

theorem validateLength_eq_ok {min : Nat} {max : Option Nat} {value : Value} {items : List Value}
    (h : validateLength min max value = .ok items) :
    value = .list items ∧ firstFailure (lengthChecks min max items.length) = none := by
  cases value with
  | list items' =>
      simp only [validateLength] at h
      split at h
      next none =>
        cases h
        exact ⟨rfl, none⟩
      next => cases h
  | _ => cases h

theorem validateLength_list {min : Nat} {max : Option Nat} {items : List Value}
    (h : firstFailure (lengthChecks min max items.length) = none) :
    validateLength min max (.list items) = .ok items := by
  simp only [validateLength, h]

/-- Elements are accepted exactly when each of them is, and each gives its own result. -/
theorem validateElements_eq_ok_iff {check : Value → Except String Value} {index : Nat}
    {items results : List Value} :
    validateElements check index items = .ok results ↔
      List.Forall₂ (fun item result => check item = .ok result) items results := by
  induction items generalizing index results with
  | nil => cases results <;> simp [validateElements]
  | cons item items ih =>
      rw [validateElements]
      cases here : check item with
      | error diagnostic => cases results <;> simp [here]
      | ok value =>
          rw [map_eq_ok]
          constructor
          · rintro ⟨values, others, rfl⟩
            exact .cons here (ih.mp others)
          · intro each
            cases each with
            | cons first others =>
                cases here.symm.trans first
                exact ⟨_, ih.mpr others, rfl⟩

/-- Elements that are accepted are accepted again. -/
theorem validateElements_again {validate : Value → Except String Value} {index : Nat}
    {items accepted : List Value} (again : ∀ v w, validate v = .ok w → validate w = .ok w)
    (h : validateElements validate index items = .ok accepted) :
    accepted.length = items.length ∧ validateElements validate index accepted = .ok accepted := by
  have each := validateElements_eq_ok_iff.mp h
  refine ⟨each.length_eq.symm, validateElements_eq_ok_iff.mpr ?_⟩
  clear h
  induction each with
  | nil => exact .nil
  | cons here _ rest => exact .cons (again _ _ here) rest

/-- A bounded module accepts again what it has accepted, and leaves it as it is. -/
theorem validate_again {checker : ValueModule} (bounded : checker.isBounded = true)
    {value accepted : Value} (h : checker.validate value = .ok accepted) :
    checker.validate accepted = .ok accepted := by
  match checker with
  | integers min max default =>
      simp only [validate] at h ⊢
      cases value with
      | int n =>
          obtain ⟨rfl, -⟩ := accept_eq_ok_iff.mp h
          exact h
      | _ => cases h
  | floats min max default =>
      simp only [validate, validateFloat] at h ⊢
      cases number : value.float? with
      | none =>
          rw [number] at h
          cases h
      | some x =>
          -- An integer has become a float, for which the same bounds are checked.
          rw [number] at h
          obtain ⟨rfl, checks⟩ := accept_eq_ok_iff.mp h
          exact accept_eq_ok_iff.mpr ⟨rfl, checks⟩
  | texts pattern min max default =>
      simp only [validate] at h ⊢
      cases value with
      | text s =>
          obtain ⟨rfl, -⟩ := accept_eq_ok_iff.mp h
          exact h
      | _ => cases h
  | atoms members =>
      have named : ∃ name, accepted = .atom name ∧ members.contains name = true := by
        simp only [validate, validateAtom] at h
        split at h
        next name =>
          split at h
          next member =>
            cases h
            exact ⟨name, rfl, member⟩
          next => cases h
        next name =>
          split at h
          next member =>
            cases h
            exact ⟨name, rfl, member⟩
          next => cases h
        next => cases h
      rcases named with ⟨name, rfl, member⟩
      simp only [validate, validateAtom, member, if_true]
  | lists min max =>
      simp only [validate] at h ⊢
      rcases map_eq_ok.mp h with ⟨items, length, rfl⟩
      rw [validateLength_list (validateLength_eq_ok length).2]
      rfl
  | listsOf min max element =>
      simp only [isBounded] at bounded
      simp only [validate] at h ⊢
      split at h
      next => cases h
      next items length =>
        rcases map_eq_ok.mp h with ⟨values, elements, rfl⟩
        rcases validateElements_again (fun _ _ => validate_again bounded) elements with ⟨count, again⟩
        have checks := (validateLength_eq_ok length).2
        rw [← count] at checks
        rw [validateLength_list checks]
        dsimp only
        rw [again]
        rfl
  | records .. | foreign .. => cases bounded

/-- A bounded module accepts no records. -/
theorem not_nilAt {checker : ValueModule} {value accepted : Value}
    (bounded : checker.isBounded = true)
    (h : checker.validate value = .ok accepted) {struct field : String} :
    ¬ accepted.NilAt struct field := by
  intro found
  have isRecord : ∃ name fields, accepted = .record name fields := by
    cases found with
    | here => exact ⟨_, _, rfl⟩
    | inside => exact ⟨_, _, rfl⟩
  rcases isRecord with ⟨name, fields, rfl⟩
  -- What a bounded module accepts is a leaf or a list.
  cases checker with
  | records | foreign => cases bounded
  | integers =>
      simp only [validate] at h
      cases value with
      | int n => cases (accept_eq_ok_iff.mp h).1
      | _ => cases h
  | floats =>
      simp only [validate, validateFloat] at h
      split at h
      next => cases (accept_eq_ok_iff.mp h).1
      next => cases h
  | texts =>
      simp only [validate] at h
      cases value with
      | text s => cases (accept_eq_ok_iff.mp h).1
      | _ => cases h
  | atoms =>
      simp only [validate, validateAtom] at h
      split at h <;> try split at h
      all_goals cases h
  | lists =>
      simp only [validate] at h
      rcases map_eq_ok.mp h with ⟨items, _, same⟩
      cases same
  | listsOf =>
      simp only [validate] at h
      split at h
      next => cases h
      next =>
        rcases map_eq_ok.mp h with ⟨values, _, same⟩
        cases same

/-! ## Settled values -/

section Settled

variable (unfilled : String → String → Prop)

mutual

/-- What a module may give.  A field of a record may be `nil` only where its struct leaves it
unfilled. -/
def Settled : ValueModule → Value → Prop
  | records name fields, value =>
      ∃ values, value = .record name values ∧ SettledFields name fields values
  | checker, value => checker.validate value = .ok value

def SettledFields (struct : String) :
    List (String × ValueModule × Value) → List (String × Value) → Prop
  | [], values => values = []
  | (field, checker, _) :: rest, values => ∃ value others, values = (field, value) :: others ∧
      (value = .nil ∧ unfilled struct field ∨ Settled checker value) ∧
      SettledFields struct rest others

end

mutual

/-- A module whose records have distinct fields, each with a module of this kind and a value of that
module to start from. -/
def WellMade : ValueModule → Prop
  | records name fields => (fields.map Prod.fst).Nodup ∧ WellMadeFields name fields
  | listsOf _ _ element => element.isBounded = true
  | foreign .. => False
  | _ => True

def WellMadeFields (struct : String) : List (String × ValueModule × Value) → Prop
  | [] => True
  | (field, checker, fallback) :: rest => WellMade checker ∧
      (fallback = .nil ∧ unfilled struct field ∨ checker.Settled unfilled fallback) ∧
      WellMadeFields struct rest

end

variable {unfilled}

theorem settled_iff {checker : ValueModule} (other : checker.isStruct = false)
    {value : Value} : checker.Settled unfilled value ↔ checker.validate value = .ok value := by
  cases checker with
  | records => cases other
  | _ => simp only [Settled]

theorem isBounded_of_wellMade {checker : ValueModule}
    (other : checker.isStruct = false) (made : checker.WellMade unfilled) :
    checker.isBounded = true := by
  cases checker with
  | records => cases other
  | listsOf min max element => simpa only [WellMade, isBounded] using made
  | foreign => simp only [WellMade] at made
  | _ => rfl

theorem wellMade_of_isBounded {checker : ValueModule} (bounded : checker.isBounded = true) :
    checker.WellMade unfilled := by
  cases checker with
  | records | foreign => cases bounded
  | listsOf min max element => simpa only [WellMade, isBounded] using bounded
  | _ => trivial

/-- No module of this kind accepts `nil`. -/
theorem validate_nil {checker : ValueModule} (made : checker.WellMade unfilled) :
    ∃ diagnostic, checker.validate .nil = .error diagnostic := by
  cases checker with
  | foreign => simp only [WellMade] at made
  | _ =>
      simp [validate, validateInteger, validateFloat, validateText, validateAtom,
        validateLength, mapping?, Value.float?, Value.isRecordOf, Except.map]

theorem wellMadeFields_iff {struct : String} {fields : List (String × ValueModule × Value)} :
    WellMadeFields unfilled struct fields ↔ ∀ entry ∈ fields, entry.2.1.WellMade unfilled ∧
      (entry.2.2 = .nil ∧ unfilled struct entry.1 ∨ entry.2.1.Settled unfilled entry.2.2) := by
  induction fields with
  | nil => simp [WellMadeFields]
  | cons entry rest ih =>
      rcases entry with ⟨name, checker, fallback⟩
      simp [WellMadeFields, ih, and_assoc]

theorem map_fst_of_settledFields {struct : String}
    {fields : List (String × ValueModule × Value)} {values : List (String × Value)}
    (settled : SettledFields unfilled struct fields values) :
    values.map Prod.fst = fields.map Prod.fst := by
  induction fields generalizing values with
  | nil =>
      simp only [SettledFields] at settled
      rw [settled]
      rfl
  | cons entry rest ih =>
      rcases entry with ⟨field, checker, fallback⟩
      simp only [SettledFields] at settled
      rcases settled with ⟨value, others, rfl, _, tail⟩
      simp [ih tail]

mutual

/-- What a module accepts is settled. -/
theorem validate_settled (checker : ValueModule) (made : checker.WellMade unfilled)
    {value accepted : Value} (h : checker.validate value = .ok accepted) :
    checker.Settled unfilled accepted := by
  cases checker with
  | records name fields =>
      simp only [WellMade] at made
      simp only [validate] at h
      simp only [Settled]
      split at h
      next => cases h
      next mapping _ =>
        split at h
        next values constructed =>
          cases h
          exact ⟨values, rfl, construct_settled fields made.2 constructed⟩
        next => cases h
  | _ =>
      exact (settled_iff rfl).mpr (validate_again (isBounded_of_wellMade rfl made) h)

/-- The fields of a new record are settled: those that are given are accepted by their modules, and
the others are what the fields start from. -/
theorem construct_settled {struct : String} (fields : List (String × ValueModule × Value))
    (made : WellMadeFields unfilled struct fields) {mapping : Value}
    {values : List (String × Value)} (h : construct fields mapping = .ok values) :
    SettledFields unfilled struct fields values := by
  match fields with
  | [] =>
      simp only [construct, Except.ok.injEq] at h
      simp only [SettledFields]
      exact h.symm
  | (field, checker, fallback) :: rest =>
      simp only [WellMadeFields] at made
      simp only [construct] at h
      simp only [SettledFields]
      split at h
      next =>
        -- The field was left out, so it starts from its fallback.
        rcases map_eq_ok.mp h with ⟨others, there, rfl⟩
        exact ⟨fallback, others, rfl, made.2.1, construct_settled rest made.2.2 there⟩
      next raw _ =>
        split at h
        next => cases h
        next value accepted =>
          rcases map_eq_ok.mp h with ⟨others, there, rfl⟩
          exact ⟨value, others, rfl, .inr (validate_settled checker made.1 accepted),
            construct_settled rest made.2.2 there⟩

end

/-- A default is settled. -/
theorem default_settled {checker : ValueModule} (made : checker.WellMade unfilled) {value : Value}
    (h : checker.default = .ok value) : checker.Settled unfilled value := by
  -- A default was checked by its own module, except for an atom, which is a member, and a record, whose
  -- fields start from what is settled.
  match checker with
  | integers _ _ (some n) => exact validate_settled _ made h
  | integers _ _ none => cases h
  | floats _ _ x => exact validate_settled _ made h
  | texts _ _ _ (some s) => exact validate_settled _ made h
  | texts _ _ _ none => cases h
  | atoms (member :: rest) =>
      cases h
      refine (settled_iff rfl).mpr ?_
      simp [validate, validateAtom]
  | atoms [] => cases h
  | lists .. => exact validate_settled _ made h
  | listsOf .. => exact validate_settled _ made h
  | records name fields =>
      cases h
      simp only [WellMade] at made
      simp only [Settled]
      refine ⟨_, rfl, ?_⟩
      have held := made.2
      clear made
      induction fields with
      | nil => simp [SettledFields]
      | cons entry rest ih =>
          rcases entry with ⟨field, inner, fallback⟩
          simp only [WellMadeFields] at held
          simp only [SettledFields, List.map_cons]
          exact ⟨fallback, _, rfl, held.2.1, ih held.2.2⟩
  | foreign .. => simp only [WellMade] at made

/-! ## Validating again -/

/-- The value of a field is found again in the map that a record stands for. -/
theorem given?_asMapping {name : String} {values : List (String × Value)}
    (distinct : (values.map Prod.fst).Nodup) :
    ∀ entry ∈ values, given? (asMapping (.record name values)) entry.1 = some entry.2 := by
  have keys : (values.map fun entry => (Value.atom entry.1, entry.2)).Pairwise
      fun a b => Value.same a.1 b.1 = false := by
    rw [List.pairwise_map]
    refine (List.pairwise_map.mp distinct).imp ?_
    intro a b differs
    simpa [Value.same] using differs
  have mapping : asMapping (.record name values)
      = .map (values.map fun entry => (Value.atom entry.1, entry.2)) :=
    Value.ofEntries_of_distinct keys
  intro entry member
  have found := Compile.find?_of_nodup distinct member
  rw [given?, mapping]
  simp [Value.mapGet?, Value.findEntry?, Value.same, List.find?_map, Function.comp_def, found]

/-- A value is accepted as it is, or it holds a `nil` field and is refused. -/
def Revalidates (checker : ValueModule) (value : Value) : Prop :=
  ¬ value.HasNil ∧ checker.validate value = .ok value ∨
    value.HasNil ∧ ∃ diagnostic, checker.validate value = .error diagnostic

mutual

theorem revalidates (checker : ValueModule) (made : checker.WellMade unfilled) {value : Value}
    (settled : checker.Settled unfilled value) : checker.Revalidates value := by
  cases checker with
  | records name fields =>
      simp only [WellMade] at made
      simp only [Settled] at settled
      rcases settled with ⟨values, rfl, held⟩
      have distinct : (values.map Prod.fst).Nodup := map_fst_of_settledFields held ▸ made.1
      -- A record is handed to its own module as the map of its fields.
      have itself : mapping? name (.record name values)
          = some (asMapping (.record name values)) := by
        simp [mapping?, Value.isRecordOf]
      simp only [Revalidates, validate, itself, Value.hasNil_record_iff]
      rcases reconstructs fields made.2 held (given?_asMapping distinct) with
        ⟨none, rebuilt⟩ | ⟨some, failure, refused⟩
      · rw [rebuilt]
        exact .inl ⟨none, rfl⟩
      · rw [refused]
        exact .inr ⟨some, _, rfl⟩
  | _ =>
      have accepted := (settled_iff rfl).mp settled
      refine .inl ⟨?_, accepted⟩
      rintro ⟨struct, field, found⟩
      exact not_nilAt (isBounded_of_wellMade rfl made) accepted found

/-- Making a record from its own fields gives them back, unless one of them is `nil` or holds a
`nil`. -/
theorem reconstructs {struct : String} (fields : List (String × ValueModule × Value))
    (made : WellMadeFields unfilled struct fields) {values : List (String × Value)}
    (settled : SettledFields unfilled struct fields values) {mapping : Value}
    (given : ∀ entry ∈ values, given? mapping entry.1 = some entry.2) :
    (¬ ∃ entry ∈ values, entry.2 = .nil ∨ entry.2.HasNil) ∧
        construct fields mapping = .ok values ∨
      (∃ entry ∈ values, entry.2 = .nil ∨ entry.2.HasNil) ∧
        ∃ failure, construct fields mapping = .error failure := by
  match fields with
  | [] =>
      simp only [SettledFields] at settled
      subst settled
      exact .inl ⟨by simp, by simp only [construct]⟩
  | (field, checker, fallback) :: rest =>
      simp only [WellMadeFields] at made
      simp only [SettledFields] at settled
      rcases settled with ⟨value, others, rfl, here, tail⟩
      rw [List.forall_mem_cons] at given
      have later := reconstructs rest made.2.2 tail given.2
      simp only [construct, given.1, List.exists_mem_cons_iff]
      rcases here with ⟨rfl, _⟩ | here
      · -- No module takes `nil`, so the record is refused at this field.
        rcases validate_nil made.1 with ⟨diagnostic, refused⟩
        rw [refused]
        exact .inr ⟨.inl (.inl rfl), _, rfl⟩
      · rcases revalidates checker made.1 here with ⟨filled, accepted⟩ | ⟨unset, diagnostic, refused⟩
        · have notNil : value ≠ .nil := by
            rintro rfl
            rcases validate_nil made.1 with ⟨diagnostic, refused⟩
            rw [refused] at accepted
            cases accepted
          rw [accepted]
          dsimp only
          rcases later with ⟨none, rebuilt⟩ | ⟨some, failure, refused⟩
          · rw [rebuilt]
            refine .inl ⟨?_, rfl⟩
            rintro ((unset | unset) | unset)
            · exact notNil unset
            · exact filled unset
            · exact none unset
          · rw [refused]
            exact .inr ⟨.inr some, _, rfl⟩
        · rw [refused]
          exact .inr ⟨.inl (.inr unset), _, rfl⟩

end

mutual

/-- A `nil` stands only where a struct leaves a field unfilled. -/
theorem unfilled_of_nilAt (checker : ValueModule) (made : checker.WellMade unfilled)
    {value : Value} (settled : checker.Settled unfilled value) {owner field : String}
    (found : value.NilAt owner field) : unfilled owner field := by
  cases checker with
  | records name fields =>
      simp only [WellMade] at made
      simp only [Settled] at settled
      rcases settled with ⟨values, rfl, held⟩
      cases found with
      | here member => exact unfilled_of_fields fields made.2 held member (.inl ⟨rfl, rfl, rfl⟩)
      | inside member deeper => exact unfilled_of_fields fields made.2 held member (.inr deeper)
  | _ =>
      have accepted := (settled_iff rfl).mp settled
      exact absurd found (not_nilAt (isBounded_of_wellMade rfl made) accepted)

theorem unfilled_of_fields {struct : String} (fields : List (String × ValueModule × Value))
    (made : WellMadeFields unfilled struct fields) {values : List (String × Value)}
    (settled : SettledFields unfilled struct fields values)
    {entry : String × Value} (member : entry ∈ values) {owner field : String}
    (found : (owner = struct ∧ field = entry.1 ∧ entry.2 = .nil) ∨ entry.2.NilAt owner field) :
    unfilled owner field := by
  match fields with
  | [] =>
      simp only [SettledFields] at settled
      subst settled
      cases member
  | (name, checker, fallback) :: rest =>
      simp only [WellMadeFields] at made
      simp only [SettledFields] at settled
      rcases settled with ⟨value, others, rfl, here, tail⟩
      rcases List.mem_cons.mp member with rfl | member
      · rcases here with ⟨rfl, left⟩ | here
        · rcases found with ⟨rfl, rfl, _⟩ | found
          · exact left
          · cases found
        · rcases found with ⟨_, _, rfl⟩ | found
          · -- A module that settles on `nil` would accept it.
            rcases validate_nil made.1 with ⟨diagnostic, refused⟩
            cases checker with
            | records inner slots =>
                simp only [Settled] at here
                rcases here with ⟨_, same, _⟩
                cases same
            | _ =>
                rw [(settled_iff rfl).mp here] at refused
                cases refused
          · exact unfilled_of_nilAt checker made.1 here found
      · exact unfilled_of_fields rest made.2.2 tail member found

end

end Settled

end ValueModule

end Clausal
