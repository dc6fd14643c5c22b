import Clausal.Proofs.Lowering.Convention
import Clausal.Proofs.Shape
import Clausal.Proofs.Structs.FieldModules
import Clausal.Proofs.Structs.Settled

/-!
# Validating a record again

The records that a program can come by, through the module of a struct or its operations, are settled:
an operation makes settled fields of settled ones (`updateFields_settled`), building a machine makes
well-made modules only (`wellMadeModules_of_build`), and `Obtained.settled` puts the two together.
Main statement: `validated_record_stays_valid`.
-/

namespace Clausal

open Clausal.Core (RecordDef RecordField RecordOp)
open Outcome

/-! ## Record operations -/

namespace Machine

open ValueModule (Settled SettledFields WellMade WellMadeFields)
open Clausal.Compile (compileFile)

section Operations

variable {unfilled : String → String → Prop}

/-- Setting a field to a settled value keeps the fields of a record settled. -/
theorem setField_settled {struct : String} {fields : List (String × ValueModule × Value)}
    {values : List (String × Value)} (distinct : (fields.map Prod.fst).Nodup)
    (settled : SettledFields unfilled struct fields values)
    {entry : String × ValueModule × Value} (member : entry ∈ fields) {value : Value}
    (accepted : entry.2.1.Settled unfilled value) :
    SettledFields unfilled struct fields (RecordSchema.setField entry.1 value values) := by
  induction fields generalizing values with
  | nil => cases member
  | cons first rest ih =>
      rcases first with ⟨name, checker, fallback⟩
      simp only [SettledFields] at settled ⊢
      rcases settled with ⟨held, others, rfl, here, tail⟩
      rw [List.map_cons, List.nodup_cons] at distinct
      rcases List.mem_cons.mp member with rfl | member
      · exact ⟨value, others, by simp [RecordSchema.setField], .inr accepted, tail⟩
      · -- The names differ, so this field keeps its value.
        have differs : name ≠ entry.1 := by
          intro same
          have among : entry.1 ∈ rest.map Prod.fst := List.mem_map_of_mem member
          exact distinct.1 (same ▸ among)
        exact ⟨held, _, by simp [RecordSchema.setField, differs], here, ih distinct.2 tail member⟩

theorem updateFields_settled {struct : String} {fields given : List (String × ValueModule × Value)}
    (distinct : (fields.map Prod.fst).Nodup)
    (made : ∀ entry ∈ given, entry ∈ fields ∧ entry.2.1.WellMade unfilled) {mapping : Value}
    {values updated : List (String × Value)}
    (settled : SettledFields unfilled struct fields values)
    (h : RecordSchema.updateFields mapping given values = .ok updated) :
    SettledFields unfilled struct fields updated := by
  induction given generalizing values with
  | nil =>
      cases h
      exact settled
  | cons entry rest ih =>
      rcases entry with ⟨field, checker, fallback⟩
      rw [List.forall_mem_cons] at made
      simp only [RecordSchema.updateFields] at h
      split at h
      next => exact ih made.2 settled h
      next raw _ =>
        split at h
        next => cases h
        next value here =>
          have accepted := ValueModule.validate_settled checker made.1.2 here
          exact ih made.2 (setField_settled distinct settled made.1.1 accepted) h

/-- A checked result that reads as a success is one. -/
theorem outcomeValue_eq_ok {result : Except FieldFailure Value} {record : Value}
    (h : outcomeValue result = .ok record) : result = .ok record := by
  cases result with
  | ok given =>
      simp only [outcomeValue, Value.ok, Value.tuple.injEq, List.cons.injEq] at h
      rw [h.2.1]
  | error failure => simp [outcomeValue, Value.ok, Value.error] at h

theorem mapExpected_ne_ok (value record : Value) : mapExpected value ≠ .ok record := by
  simp [mapExpected, Value.ok, Value.error]

variable {schema : RecordSchema} (made : schema.toModule.WellMade unfilled) {owner : String}
  {mapping record : Value}

include made

theorem RecordSchema.construct_settled (h : schema.construct mapping = .ok record) :
    schema.toModule.Settled unfilled record := by
  simp only [RecordSchema.toModule, WellMade, Settled] at made ⊢
  rcases map_eq_ok.mp h with ⟨values, fields, rfl⟩
  exact ⟨values, rfl, ValueModule.construct_settled schema.fields made.2 fields⟩

theorem RecordSchema.update_settled {before : Value}
    (settled : schema.toModule.Settled unfilled before)
    (h : schema.update before mapping = .ok record) : schema.toModule.Settled unfilled record := by
  simp only [RecordSchema.toModule, WellMade, Settled] at made settled ⊢
  rcases settled with ⟨values, rfl, held⟩
  rcases map_eq_ok.mp h with ⟨updated, fields, rfl⟩
  have each : ∀ entry ∈ schema.fields, entry ∈ schema.fields ∧ entry.2.1.WellMade unfilled :=
    fun entry member => ⟨member, (ValueModule.wellMadeFields_iff.mp made.2 entry member).1⟩
  exact ⟨updated, rfl, updateFields_settled made.1 each held fields⟩

/-- A new record is settled.  What is made of something that is no map is no record. -/
theorem new_settled (h : applyRecordOp schema owner .new [mapping] = .ok record)
    (isRecord : record.isRecordOf schema.name = true) :
    schema.toModule.Settled unfilled record := by
  simp only [applyRecordOp] at h
  split at h
  next =>
    split at h
    next given constructed =>
      cases h
      exact RecordSchema.construct_settled made constructed
    next => cases h
  next =>
    cases h
    cases isRecord

theorem validate_settled (h : applyRecordOp schema owner .validate [mapping] = .ok (.ok record)) :
    schema.toModule.Settled unfilled record := by
  simp only [applyRecordOp] at h
  split at h
  next => exact RecordSchema.construct_settled made (outcomeValue_eq_ok (Except.ok.inj h))
  next => exact absurd (Except.ok.inj h) (mapExpected_ne_ok _ _)

theorem update_settled {before : Value} (settled : schema.toModule.Settled unfilled before)
    (h : applyRecordOp schema owner .update [before, mapping] = .ok (.ok record)) :
    schema.toModule.Settled unfilled record := by
  simp only [applyRecordOp] at h
  split at h
  next => cases h
  next =>
    split at h
    next => exact RecordSchema.update_settled made settled (outcomeValue_eq_ok (Except.ok.inj h))
    next => exact absurd (Except.ok.inj h) (mapExpected_ne_ok _ _)

end Operations

/-! ## Building -/

/-- A field of a struct whose module was registered without a default. -/
def Unfilled (registry : Registry) (structs : List RecordDef) (struct field : String) : Prop :=
  ∃ definition ∈ structs, definition.name = struct ∧
    ∃ slot ∈ definition.fields, slot.name = field ∧
      ∃ checker, registry.get? slot.checker = some checker ∧
        ∃ diagnostic, checker.default = .error diagnostic

/-- The modules of a registry are well made, and those that are not of a struct were there from the
start. -/
def WellMadeModules (start : Registry) (structs : List RecordDef) (registry : Registry) : Prop :=
  ∀ name checker, registry.get? name = some checker →
    checker.WellMade (Unfilled start structs) ∧
      (checker.isStruct = true ∨ start.get? name = some checker)

section Building

variable {start registry : Registry} {structs : List RecordDef}

/-- What a field starts from is settled, or the field is unfilled. -/
theorem fallbackOf_settled (modules : WellMadeModules start structs registry)
    {definition : RecordDef} (member : definition ∈ structs) {field : RecordField}
    (inFields : field ∈ definition.fields) {checker : ValueModule}
    (registered : registry.get? field.checker = some checker) :
    fallbackOf checker = .nil ∧ Unfilled start structs definition.name field.name ∨
      checker.Settled (Unfilled start structs) (fallbackOf checker) := by
  rcases modules _ _ registered with ⟨made, origin⟩
  unfold fallbackOf
  cases default : checker.default with
  | ok value => exact .inr (ValueModule.default_settled made default)
  | error diagnostic =>
      -- A struct has a default, so this module is one of those from the start.
      have atStart : start.get? field.checker = some checker := by
        rcases origin with isStruct | atStart
        · cases checker with
          | records => cases default
          | _ => cases isStruct
        · exact atStart
      exact .inl ⟨rfl, definition, member, rfl, field, inFields, rfl, checker, atStart, diagnostic,
        default⟩

theorem WellMadeModules.step (compiled : CompiledStructs structs)
    (modules : WellMadeModules start structs registry) {definition : RecordDef}
    (member : definition ∈ structs) {schema : RecordSchema}
    (made : RecordSchema.ofDef registry definition = .ok schema) :
    WellMadeModules start structs (registry.insert definition.name schema.toModule) := by
  rcases map_eq_ok.mp made with ⟨fields, bound, rfl⟩
  have distinct : (fields.map Prod.fst).Nodup := by
    rw [map_fst_of_bindFields bound]
    exact compiled.distinct definition member
  have each : WellMadeFields (Unfilled start structs) definition.name fields := by
    refine ValueModule.wellMadeFields_iff.mpr ?_
    intro entry inFields
    have related := (List.forall₂_and_left (p := fun field => field ∈ definition.fields) _ _).mpr
      ⟨fun _ => id, bindFields_forall₂ bound⟩
    rcases Compile.exists_mem_of_forall₂ related inFields with
      ⟨field, _, declared, named, registered, fallback⟩
    rw [fallback, named]
    exact ⟨(modules _ _ registered).1, fallbackOf_settled modules member declared registered⟩
  intro name checker found
  -- Under its own name the struct is found as it was built, under any other name what was there before.
  by_cases same : name = definition.name
  · rw [same, Registry.get?_insert_self] at found
    cases found
    simp only [RecordSchema.toModule, WellMade]
    exact ⟨⟨distinct, each⟩, .inl rfl⟩
  · rw [Registry.get?_insert_of_ne _ _ same] at found
    exact modules name checker found

theorem wellMadeModules_of_build {program : Core.Program} {limit : Nat} {machine : Machine}
    (compiled : CompiledStructs program.records)
    (bounded : ∀ entry ∈ start, entry.2.isBounded = true)
    (built : build program start limit = .ok machine) :
    WellMadeModules start program.records machine.registry := by
  refine build_induction (P := fun _ registry _ => WellMadeModules start program.records registry)
    (fun _ _ _ _ _ _ member modules _ made => modules.step compiled member made) ?_ built
  intro name checker found
  have member : (name, checker) ∈ start := by
    rcases List.lookup_eq_some_iff.mp found with ⟨before, after, rfl, _⟩
    simp
  exact ⟨ValueModule.wellMade_of_isBounded (bounded _ member), .inr found⟩

end Building

/-! ## Calls of record operations -/

section Calls

variable {defaultModule : String} {file : Surface.SourceFile} {program : Core.Program}
variable {registry : Registry} {limit : Nat} {machine : Machine} {definition : RecordDef}

/-- In a module with a struct, the names of the record operations stand for these operations. -/
theorem routine?_record (compiled : compileFile defaultModule file = .ok program)
    (member : definition ∈ program.records) (machine : Machine) (op : RecordOp) :
    Meaning.routine? (Lowering.worldOf defaultModule file machine) definition.name
      (Meaning.opName op) = some (.record op) := by
  rcases List.mem_filterMap.mp member with ⟨m, inProgram, has⟩
  rcases Compile.madeOf_of_mem compiled inProgram with ⟨spec, made, _⟩
  have named : definition.name = m.name := (Compile.compileModule_struct made has).1
  have struct : Meaning.structAmong (Meaning.membersOf defaultModule definition.name file.items)
      = true := by
    rw [named, ← (Compile.outline_of_mem compiled inProgram).struct, has]
    rfl
  have itself : Meaning.opNamed? (Meaning.opName op) = some op := by cases op <;> decide
  simp only [Meaning.routine?, Lowering.worldOf, Meaning.World.members, struct, if_true, itself]

/-- Where a call may begin, a call of a record operation applies the operation of the schema. -/
theorem call_record_eq (op : RecordOp) (compiled : compileFile defaultModule file = .ok program)
    (built : build program registry limit = .ok machine) (positive : 0 < limit)
    (member : definition ∈ program.records) {schema : RecordSchema}
    (found : machine.schemas.lookup definition.name = some schema) (args : List Value) :
    machine.call definition.name (Meaning.opName op) args
      = match Meaning.opArgs? op args with
        | none => .error (.arity (definition.name ++ "." ++ Meaning.opName op) (Meaning.opArity op)
            args.length)
        | some full => applyRecordOp schema definition.name op full := by
  rcases build_eq_ok built with ⟨rfl, rfl, _⟩
  have routine := routine?_record compiled member machine op
  have held : (Lowering.worldOf defaultModule file machine).schemas.lookup definition.name
      = some schema := found
  obtain ⟨remaining, depth⟩ := Nat.exists_eq_add_one.mpr positive
  -- The call is taken to the source file, where the routine of this name is the record operation.
  rw [call, Lowering.callWithin_eq compiled, depth]
  simp only [Meaning.callWithin, Meaning.dispatch, routine, Meaning.run, Meaning.runRecord]
  cases Meaning.opArgs? op args with
  | none => rfl
  | some full => simp only [held]

/-- A call of a record operation that gives a result has applied the operation of the schema. -/
theorem call_record (op : RecordOp) (compiled : compileFile defaultModule file = .ok program)
    (built : build program registry limit = .ok machine) (member : definition ∈ program.records)
    {schema : RecordSchema} (found : machine.schemas.lookup definition.name = some schema)
    {args : List Value} {result : Value}
    (called : machine.call definition.name (Meaning.opName op) args = .ok result) :
    ∃ full, Meaning.opArgs? op args = some full ∧
      applyRecordOp schema definition.name op full = .ok result := by
  rcases Nat.eq_zero_or_pos limit with rfl | positive
  · -- Nothing may be called at all.
    rcases build_eq_ok built with ⟨rfl, depth, _⟩
    have routine := routine?_record compiled member machine op
    rw [call, Lowering.callWithin_eq compiled, depth] at called
    simp only [Meaning.callWithin, Meaning.dispatch, routine] at called
    cases called
  · rw [call_record_eq op compiled built positive member found] at called
    cases complete : Meaning.opArgs? op args with
    | none =>
        rw [complete] at called
        cases called
    | some full =>
        rw [complete] at called
        exact ⟨full, rfl, called⟩

/-- How a program can come by a record of a struct that has been checked. -/
inductive Obtained (machine : Machine) (struct : String) : Value → Prop where
  | accepted {checker raw record} (registered : machine.registry.get? struct = some checker)
      (validated : checker.validate raw = .ok record) : Obtained machine struct record
  | new {args record} (called : machine.call struct "new" args = .ok record)
      (isRecord : record.isRecordOf struct = true) : Obtained machine struct record
  | validate {args record} (called : machine.call struct "validate" args = .ok (.ok record)) :
      Obtained machine struct record
  | update {before mapping record} (source : Obtained machine struct before)
      (called : machine.call struct "update" [before, mapping] = .ok (.ok record)) :
      Obtained machine struct record

/-- What is obtained is settled, and its schema and module are known. -/
theorem Obtained.settled (compiled : compileFile defaultModule file = .ok program)
    (bounded : ∀ entry ∈ registry, entry.2.isBounded = true)
    (built : build program registry limit = .ok machine) (member : definition ∈ program.records)
    {schema : RecordSchema} (found : machine.schemas.lookup definition.name = some schema)
    (named : schema.name = definition.name)
    (registered : machine.registry.get? definition.name = some schema.toModule) {record : Value}
    (obtained : Obtained machine definition.name record) :
    schema.toModule.Settled (Unfilled registry program.records) record := by
  have modules := wellMadeModules_of_build (Compile.compiledStructs compiled) bounded built
  have made := (modules _ _ registered).1
  induction obtained with
  | accepted registered' validated =>
      rw [registered] at registered'
      cases registered'
      exact ValueModule.validate_settled _ made validated
  | @new args record called isRecord =>
      rcases call_record .new compiled built member found called with ⟨full, complete, applied⟩
      -- Only `new` may be called without a map; it then has an empty one.
      obtain ⟨mapping, rfl⟩ : ∃ mapping, full = [mapping] := by
        match args, complete with
        | [], rfl => exact ⟨_, rfl⟩
        | [mapping], rfl => exact ⟨_, rfl⟩
      exact new_settled made applied (named ▸ isRecord)
  | @validate args record called =>
      rcases call_record .validate compiled built member found called with
        ⟨full, complete, applied⟩
      obtain ⟨mapping, rfl⟩ : ∃ mapping, full = [mapping] := by
        match args, complete with
        | [mapping], rfl => exact ⟨_, rfl⟩
      exact validate_settled made applied
  | update source called before =>
      rcases call_record .update compiled built member found called with
        ⟨full, complete, applied⟩
      cases complete
      exact update_settled made before applied

/-- A record of a struct that has been validated stays valid, unless it was left with a `nil`.

On a machine built over bounded modules for a compiled file, take a record of a struct that the module
of the struct has accepted, or that `new`, `validate` or `update` has given.  The module accepts it
again as it is, and so does every `validate[..]` parameter that asks for the struct, exactly if no field
in it is `nil`; otherwise both refuse it.  A field can only be `nil` if its module was registered
without a default. -/
theorem validated_record_stays_valid (compiled : compileFile defaultModule file = .ok program)
    (bounded : ∀ entry ∈ registry, entry.2.isBounded = true)
    (built : build program registry limit = .ok machine) (member : definition ∈ program.records)
    {record : Value} (obtained : Obtained machine definition.name record) :
    ∃ checker, machine.registry.get? definition.name = some checker ∧
      checker.Revalidates record ∧
      (∀ owner param, param.mode = .validate →
        Lowering.checker? owner param.type = some definition.name →
        (Lowering.received machine.registry owner param record = .ok record ↔ ¬ record.HasNil)) ∧
      ∀ struct field, record.NilAt struct field →
        Unfilled registry program.records struct field := by
  have distinct := Compile.nodup_structNames compiled
  have modules := wellMadeModules_of_build (Compile.compiledStructs compiled) bounded built
  rcases exists_boundSchema distinct built member with ⟨schema, found, named, registered, -⟩
  have settled := obtained.settled compiled bounded built member found named registered
  have made := (modules _ _ registered).1
  have again := ValueModule.revalidates _ made settled
  refine ⟨schema.toModule, registered, again, ?_, ?_⟩
  · intro owner param mode checker
    simp only [Lowering.received, mode, checker, registered]
    rcases again with ⟨filled, accepted⟩ | ⟨unset, diagnostic, refused⟩
    · simp [accepted, filled]
    · simp [refused, unset]
  · intro struct field found
    exact ValueModule.unfilled_of_nilAt _ made settled found

end Calls

/-- An account whose owner has no default and whose limit is a record with one, and a function that
asks for an account. -/
def accountFile : Surface.SourceFile :=
  let s := Span.synthetic
  let name := Surface.Expr.ident s
  let struct (fields : List (String × String)) : Surface.Member :=
    .struct ⟨fields.map fun (field, type) => ⟨field, name type, s⟩, s⟩
  let check : Surface.FunctionDef :=
    { name := "check", returnType := none, constraints := [], span := s
      params := [⟨"account", .index s (name "validate") [name "Account"], s⟩]
      body := [.expr (name "account")] }
  { items :=
      [.block ⟨"Account", [struct [("owner", "Name"), ("limit", "Limit")]], s⟩,
       .block ⟨"Limit", [struct [("amount", "Count")]], s⟩, .member (.function check)]
    span := s }

def accountRegistry : Registry :=
  [("Name", .texts none 1 none none), ("Count", .integers (some 0) none (some 0))]

def limitOf (amount : Int) : Value := .record "Limit" [("amount", .int amount)]

/-- An account that is made with an owner, and one that is made of nothing. -/
def ownedAccount : Value := .record "Account" [("owner", .text "ann"), ("limit", limitOf 0)]

def emptyAccount : Value := .record "Account" [("owner", .nil), ("limit", limitOf 0)]

theorem accountFile_runs :
    ∃ program machine, compileFile "Main" accountFile = .ok program ∧
      build program accountRegistry 4 = .ok machine ∧
      program.records.find? (·.name == "Account")
        = some ⟨"Account", [⟨"owner", "Name"⟩, ⟨"limit", "Limit"⟩]⟩ ∧
      machine.call "Account" "new" [.map [(.atom "owner", .text "ann")]] = .ok ownedAccount ∧
      machine.call "Account" "new" [] = .ok emptyAccount :=
  ⟨_, _, rfl, rfl, rfl, by with_unfolding_all rfl, by with_unfolding_all rfl⟩

/-- The account with an owner is accepted again, with the limit it has by default. -/
theorem validated_record_stays_valid_account :
    ∃ program machine checker, compileFile "Main" accountFile = .ok program ∧
      build program accountRegistry 4 = .ok machine ∧
      machine.registry.get? "Account" = some checker ∧
      Obtained machine "Account" ownedAccount ∧ ¬ ownedAccount.HasNil ∧
      checker.validate ownedAccount = .ok ownedAccount := by
  rcases accountFile_runs with ⟨program, machine, compiled, built, account, made, -⟩
  have bounded : ∀ entry ∈ accountRegistry, entry.2.isBounded = true := by decide
  have filled : ¬ ownedAccount.HasNil := by
    have text : ¬ (Value.text "ann").HasNil := by rintro ⟨_, _, ⟨⟩⟩
    have int : ¬ (Value.int 0).HasNil := by rintro ⟨_, _, ⟨⟩⟩
    simp [ownedAccount, limitOf, Value.hasNil_record_iff, text, int]
  have obtained : Obtained machine "Account" ownedAccount := .new made rfl
  rcases validated_record_stays_valid compiled bounded built (List.mem_of_find?_eq_some account)
    obtained with ⟨checker, registered, again, -, -⟩
  refine ⟨program, machine, checker, compiled, built, registered, obtained, filled, ?_⟩
  rcases again with ⟨-, accepted⟩ | ⟨unset, -⟩
  · exact accepted
  · exact absurd unset filled

/-- An account that is made of nothing has no owner, as the module of the owner has no default.  Its
own module refuses it, and a function that asks for an account ends with a fault. -/
theorem emptyAccount_refused :
    ∃ program machine checker, compileFile "Main" accountFile = .ok program ∧
      (∀ entry ∈ accountRegistry, entry.2.isBounded = true) ∧
      build program accountRegistry 4 = .ok machine ∧
      machine.registry.get? "Account" = some checker ∧
      Obtained machine "Account" emptyAccount ∧
      (∃ diagnostic, checker.validate emptyAccount = .error diagnostic) ∧
      ∃ fault, machine.call "Main" "check" [emptyAccount] = .error fault := by
  have obtained : ∀ machine : Machine,
      machine.call "Account" "new" [] = .ok emptyAccount → Obtained machine "Account" emptyAccount :=
    fun machine called => .new called rfl
  exact ⟨_, _, _, rfl, by decide, rfl, rfl, obtained _ (by with_unfolding_all rfl),
    ⟨_, by with_unfolding_all rfl⟩, _, by with_unfolding_all rfl⟩

end Machine

end Clausal
