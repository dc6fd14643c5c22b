import Clausal.Spec.Basic
import Clausal.Spec.Error

/-!
# Structs

A struct gives its module three functions: `new` and `validate` build a record from a map, and
`update` changes one.  The fields of a struct may hold records of another one, but not so that a
record would have to hold a record of its own struct.
-/

namespace Clausal
namespace Compile

open Clausal.Core (Expr RecordOp RecordDef RecordField)

/-! ## Functions of a struct -/

/-- A parameter of a generated function: its name, type and default. -/
structure RecordParam where
  name : String
  type : TypeExpr
  default : Option Expr := none

/-- A function that applies a record operation to its parameters. -/
def recordFunction (name : String) (params : List RecordParam) (returnType : TypeExpr)
    (op : RecordOp) (owner : String) : FunctionSpec :=
  let numbered := params.zipIdx
  { name
    params := numbered.map fun (p, position) =>
      { name := p.name, slot := position, type := p.type, default := p.default, mode := .none
        span := .synthetic }
    returnType
    constraints := []
    body := .single [.expr (.record op owner (numbered.map fun (_, position) => .var position))]
    bindings := numbered.map fun (p, position) => { name := p.name, kind := .param position }
    span := .synthetic }

/-- The functions of a struct. -/
def recordFunctions (owner : String) : List FunctionSpec :=
  [recordFunction "new" [⟨"mapping", .any, some (.map [])⟩] .selfType .new owner,
   recordFunction "validate" [⟨"mapping", .any, none⟩] .any .validate owner,
   recordFunction "update" [⟨"record", .selfType, none⟩, ⟨"mapping", .any, none⟩] .any .update
     owner]

/-- The fields of a record, which have different names; `seen` are the names before. -/
def recordFields : (seen : List String) → List SchemaField →
    Except CompileError (List RecordField)
  | _, [] => .ok []
  | seen, field :: rest =>
      if seen.contains field.name then .error ⟨.duplicateField field.name, field.span, none⟩
      else
        (recordFields (field.name :: seen) rest).map ({ name := field.name, checker := field.checker } :: ·)

/-- The record of a struct. -/
def recordDef (owner : String) (schema : StructSchema) : Except CompileError RecordDef :=
  (recordFields [] schema.fields).map fun fields => { name := owner, fields }

/-! ## Cycles -/

/-- The struct of a module. -/
def structOf? (modules : List ModuleSpec) (name : String) : Option StructSchema :=
  (modules.find? fun m => m.name == name).bind (·.schema)

/-- The error of a field that leads back to a struct on the path to it. -/
def cycleError (path : List String) (field : SchemaField) : CompileError :=
  CompileError.withHint
    ⟨.recursiveStruct ((path.dropWhile (· != field.checker)) ++ [field.checker]), field.span, none⟩
    ("field " ++ field.name ++ " cannot hold a " ++ field.checker
      ++ " record; use a plain value module")

/-- Visits the structs that some fields hold by `visit`, which takes a name and what is done. -/
def visitFields (path : List String)
    (visit : (done : List String) → (name : String) → Except CompileError (List String)) :
    (done : List String) → List SchemaField → Except CompileError (List String)
  | done, [] => .ok done
  | done, field :: rest =>
      if path.contains field.checker then .error (cycleError path field)
      else
        match visit done field.checker with
        | .error e => .error e
        | .ok done => visitFields path visit done rest

/-- Visits a struct and those its fields lead to.  `path` are the structs on the way to it,
`done` those known to lead into no cycle; the result adds to `done`.  A path has no repetition, so
`limit` needs to be no more than the number of modules. -/
def visitStruct (modules : List ModuleSpec) :
    (limit : Nat) → (path done : List String) → (name : String) → Except CompileError (List String)
  | 0, _, done, _ => .ok done
  | limit + 1, path, done, name =>
      if done.contains name then .ok done
      else
        match structOf? modules name with
        | none => .ok done
        | some schema =>
            let path := path ++ [name]
            (visitFields path (visitStruct modules limit path) done schema.fields).map (· ++ [name])

/-- Visits the structs of all modules. -/
def visitModules (modules : List ModuleSpec) :
    (done : List String) → List ModuleSpec → Except CompileError (List String)
  | done, [] => .ok done
  | done, m :: rest =>
      match visitStruct modules (modules.length + 1) [] done m.name with
      | .error e => .error e
      | .ok done => visitModules modules done rest

/-- Refuses structs whose fields form a cycle. -/
def checkCycles (modules : List ModuleSpec) : Except CompileError Unit :=
  (visitModules modules [] modules).map fun _ => ()

end Compile
end Clausal
