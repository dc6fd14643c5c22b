import Clausal.Spec.Function

/-!
# Lowering of source files

A module has the items of all blocks of its name; items outside any block belong to the default
module.  Modules stand in the order in which they are first mentioned.
-/

namespace Clausal
namespace Lowering

def lowerField (field : Surface.FieldDef) : Except CompileError SchemaField :=
  match lowerType [] field.type with
  | .error e => .error e
  | .ok (.external checker) => .ok { name := field.name, checker, span := field.span }
  | .ok other =>
      .error (CompileError.withHint
        ⟨.invalidType ("field " ++ field.name ++ " has type " ++ other.render), field.type.span,
          none⟩
        "struct fields name a value module, e.g. Count")

def lowerStruct (s : Surface.StructDef) : Except CompileError StructSchema :=
  (traverse lowerField s.fields).map fun fields => { fields, span := s.span }

/-- Changes the module of a name, which is added at the end if there is none. -/
def updateModule (name : String) (span : Span)
    (change : ModuleSpec → Except CompileError ModuleSpec) :
    List ModuleSpec → Except CompileError (List ModuleSpec)
  | [] => (change { name, functions := [], schema := none, span }).map ([·])
  | m :: rest =>
      if m.name == name then (change m).map (· :: rest)
      else (updateModule name span change rest).map (m :: ·)

/-- Adds an item to a module, `span` being where the module is mentioned. -/
def addMember (owner : String) (span : Span) (modules : List ModuleSpec)
    (member : Surface.Member) : Except CompileError (List ModuleSpec) :=
  match member with
  | .function f => do
      let spec ← lowerFunction f
      updateModule owner span (fun m => .ok { m with functions := m.functions ++ [spec] }) modules
  | .struct s => do
      let schema ← lowerStruct s
      let change := fun (m : ModuleSpec) =>
        if m.schema.isSome then
          .error (CompileError.withHint ⟨.duplicateSignature owner "new", s.span, none⟩
            "a module defines at most one struct")
        else
          .ok { m with schema := some schema }
      updateModule owner span change modules

def addMembers (owner : String) (span : Span) :
    List ModuleSpec → List Surface.Member → Except CompileError (List ModuleSpec)
  | modules, [] => .ok modules
  | modules, member :: rest => do
      let modules ← addMember owner span modules member
      addMembers owner span modules rest

/-- Adds an item of a source file; a block without items still makes a module. -/
def addItem (defaultModule : String) (modules : List ModuleSpec) :
    Surface.Item → Except CompileError (List ModuleSpec)
  | .block definition => do
      let modules ← addMembers definition.name definition.span modules definition.members
      updateModule definition.name definition.span .ok modules
  | .member member => addMember defaultModule member.span modules member

def addItems (defaultModule : String) :
    List ModuleSpec → List Surface.Item → Except CompileError (List ModuleSpec)
  | modules, [] => .ok modules
  | modules, item :: rest => do
      let modules ← addItem defaultModule modules item
      addItems defaultModule modules rest

/-- Lowers a source file. -/
def lowerFile (defaultModule : String) (file : Surface.SourceFile) :
    Except CompileError (List ModuleSpec) :=
  addItems defaultModule [] file.items

end Lowering
end Clausal
