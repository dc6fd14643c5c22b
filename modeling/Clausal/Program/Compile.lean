import Clausal.Program.Implementation
import Clausal.Program.Schema
import Clausal.Spec.Module
import Clausal.Surface.Definition

/-!
# Compiling source files

A source text is read, lowered and compiled to a program.  `Compile.announced` lists the functions
that are compiled before the first one that fails.
-/

namespace Clausal
namespace Compile

open Clausal.Core (Declaration Implementation Program ProgramModule RecordDef)

/-- The declaration of a function. -/
def declaration (spec : FunctionSpec) (implementations : List Implementation) : Declaration :=
  { name := spec.name
    signature :=
      { name := spec.name, params := spec.params.map (·.type), returnType := spec.returnType
        constraints := spec.constraints }
    forward :=
      { name := spec.name
        params := spec.params.map fun p => { name := p.name, slot := p.slot, default := p.default } }
    implementations
    bindings := spec.bindings }

def compileFunction (owner : String) (spec : FunctionSpec) : Except CompileError Declaration :=
  (implementations owner spec).map (declaration spec)

/-- The names declared in a module so far, and where. -/
abbrev Declared := List (String × Span)

/-- Declares a name, which may be declared only once. -/
def declareName (owner : String) (declared : Declared) (spec : FunctionSpec) :
    Except CompileError Declared :=
  match declared.lookup spec.name with
  | none => .ok ((spec.name, spec.span) :: declared)
  | some first =>
      .error (CompileError.withHint ⟨.duplicateSignature owner spec.name, spec.span, none⟩
        (if first.isSynthetic then "this name is generated for the module's struct"
         else "first declared at " ++ first.render))

/-- Declares and compiles functions in order. -/
def compileFunctions (owner : String) :
    Declared → List FunctionSpec → Except CompileError (List Declaration)
  | _, [] => .ok []
  | declared, spec :: rest =>
      match declareName owner declared spec with
      | .error e => .error e
      | .ok declared =>
          match compileFunction owner spec with
          | .error e => .error e
          | .ok decl => (compileFunctions owner declared rest).map (decl :: ·)

/-- The functions of a module, those of its struct first. -/
def moduleFunctions (m : ModuleSpec) : List FunctionSpec :=
  match m.schema with
  | some _ => recordFunctions m.name ++ m.functions
  | none => m.functions

/-- The record of a module's struct. -/
def moduleRecord (m : ModuleSpec) : Except CompileError (Option RecordDef) :=
  match m.schema with
  | some schema => (recordDef m.name schema).map some
  | none => .ok none

def compileModule (m : ModuleSpec) : Except CompileError ProgramModule := do
  let record ← moduleRecord m
  let functions ← compileFunctions m.name [] (moduleFunctions m)
  return { name := m.name, functions, record }

/-- Compiles all modules. -/
def compileModules (modules : List ModuleSpec) : Except CompileError Program := do
  checkCycles modules
  let modules ← Lowering.traverse compileModule modules
  return { modules }

/-! ## Progress -/

/-- The functions of a list that are compiled before the first failure. -/
def compiledFunctions (owner : String) : Declared → List FunctionSpec → List Declaration
  | _, [] => []
  | declared, spec :: rest =>
      match declareName owner declared spec, compileFunction owner spec with
      | .ok declared, .ok decl => decl :: compiledFunctions owner declared rest
      | _, _ => []

/-- The functions of a module that are compiled before the first failure. -/
def compiledInModule (m : ModuleSpec) : List Declaration :=
  match moduleRecord m with
  | .ok _ => compiledFunctions m.name [] (moduleFunctions m)
  | .error _ => []

/-- The functions, each with the name of its module, that are compiled before the first failure. -/
def announcedIn : List ModuleSpec → List (String × Declaration)
  | [] => []
  | m :: rest =>
      let here := (compiledInModule m).map fun decl => (m.name, decl)
      match compileModule m with
      | .ok _ => here ++ announcedIn rest
      | .error _ => here

/-- What compiling some modules reports on the way. -/
def announced (modules : List ModuleSpec) : List (String × Declaration) :=
  match checkCycles modules with
  | .ok _ => announcedIn modules
  | .error _ => []

end Compile

/-! ## The whole way -/

/-- Why a source text was not compiled. -/
inductive SourceError where
  | parse (error : ParseError)
  | compile (error : CompileError)
  deriving Inhabited

namespace SourceError

def message : SourceError → String
  | parse e => "parse error: " ++ e.message
  | compile e => "compile error: " ++ e.message

def span : SourceError → Span
  | parse e => e.span
  | compile e => e.span

/-- The message with the faulty line below it, if there is one. -/
def report (e : SourceError) (source : List Char) : String :=
  if e.span.isSynthetic then e.message
  else
    match Source.excerpt? e.span source with
    | some excerpt => e.message ++ "\n" ++ excerpt
    | none => e.message

end SourceError

/-- Reads and lowers a source text. -/
def lowerSource (defaultModule : String) (source : List Char) :
    Except SourceError (List ModuleSpec) :=
  match Surface.parse source with
  | .error e => .error (.parse e)
  | .ok file =>
      match Lowering.lowerFile defaultModule file with
      | .error e => .error (.compile e)
      | .ok modules => .ok modules

/-- Compiles a source text; items outside any module belong to the default module. -/
def compileSource (defaultModule : String) (source : List Char) : Except SourceError Core.Program :=
  match lowerSource defaultModule source with
  | .error e => .error e
  | .ok modules =>
      match Compile.compileModules modules with
      | .error e => .error (.compile e)
      | .ok program => .ok program

end Clausal
