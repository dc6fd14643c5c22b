import Clausal.Contract.ValueModule
import Clausal.Core.Program
import Clausal.Value.Fault

/-!
# Records

The records of a struct are built and changed by its schema: for each field, in declaration order,
a value module and the value it gets when none is given.
-/

namespace Clausal
namespace Machine

open Clausal.Core (RecordDef RecordField RecordOp)

/-- A struct with the modules of its fields. -/
structure RecordSchema where
  name : String
  fields : List (String × ValueModule × Value)
  deriving Inhabited

namespace RecordSchema

/-- The value module that accepts the records of a struct. -/
def toModule (schema : RecordSchema) : ValueModule := .records schema.name schema.fields

/-- The modules of some fields, with the defaults they give. -/
def bindFields (registry : Registry) :
    List RecordField → Except Fault (List (String × ValueModule × Value))
  | [] => .ok []
  | field :: rest =>
      match registry.get? field.checker with
      | none => .error (.unknownModule field.checker)
      | some checker =>
          let fallback := match checker.default with
            | .ok value => value
            | .error _ => .nil
          (bindFields registry rest).map ((field.name, checker, fallback) :: ·)

/-- The schema of a struct whose modules are all registered. -/
def ofDef (registry : Registry) (definition : RecordDef) : Except Fault RecordSchema :=
  (bindFields registry definition.fields).map fun fields => { name := definition.name, fields }

/-- A record of the values given in a map. -/
def construct (schema : RecordSchema) (mapping : Value) : Except FieldFailure Value :=
  (ValueModule.construct schema.fields mapping).map (.record schema.name)

/-- Sets a field: in its place if it is there, at the end otherwise. -/
def setField (name : String) (value : Value) : List (String × Value) → List (String × Value)
  | [] => [(name, value)]
  | (n, v) :: rest => if n == name then (n, value) :: rest else (n, v) :: setField name value rest

/-- Validates and sets the fields that are given in a map. -/
def updateFields (mapping : Value) :
    List (String × ValueModule × Value) → List (String × Value) →
      Except FieldFailure (List (String × Value))
  | [], values => .ok values
  | (field, checker, _) :: rest, values =>
      match ValueModule.given? mapping field with
      | none => updateFields mapping rest values
      | some raw =>
          match checker.validate raw with
          | .error diagnostic => .error ⟨field, raw, diagnostic⟩
          | .ok value => updateFields mapping rest (setField field value values)

/-- A record with the fields that are given in a map changed. -/
def update (schema : RecordSchema) (record mapping : Value) : Except FieldFailure Value :=
  match record with
  | .record name values => (updateFields mapping schema.fields values).map (.record name)
  | value => .ok value

end RecordSchema

/-- `{:field, value, diagnostic}` -/
def failureValue (failure : FieldFailure) : Value :=
  .tuple [.atom failure.field, failure.value, .text failure.diagnostic]

def failureFault (failure : FieldFailure) : Fault :=
  .validation failure.field failure.value failure.diagnostic

/-- What a record operation gives for something that is no map. -/
def mapExpected (value : Value) : Value :=
  .error (.text ("expected a map, got: " ++ value.shown))

/-- A checked result as a value. -/
def outcomeValue : Except FieldFailure Value → Value
  | .ok record => .ok record
  | .error failure => .error (failureValue failure)

/-- Applies a record operation. -/
def applyRecordOp (schema : RecordSchema) (struct : String) (op : RecordOp) (args : List Value) :
    Except Fault Value :=
  match op, args with
  | .new, [mapping] =>
      if mapping.isMap then
        match schema.construct mapping with
        | .ok record => .ok record
        | .error failure => .error (failureFault failure)
      else
        .ok (mapExpected mapping)
  | .validate, [mapping] =>
      if mapping.isMap then .ok (outcomeValue (schema.construct mapping))
      else .ok (mapExpected mapping)
  | .update, [record, mapping] =>
      if !record.isRecordOf schema.name then .error (.noClause (struct ++ ".update/2") args)
      else if mapping.isMap then .ok (outcomeValue (schema.update record mapping))
      else .ok (mapExpected mapping)
  | op, args =>
      .error (.arity (struct ++ "." ++ op.name) (if op = .update then "2" else "1") args.length)

end Machine
end Clausal
