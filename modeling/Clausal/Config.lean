import Clausal.Toml.Read
import Clausal.Text.Blank
import Clausal.Text.Quoted
import Clausal.Contract.ValueModule

/-!
# Project configuration

A project file sets the compiler up and declares value modules; environment variables override
some settings.
-/

namespace Clausal

structure CompilerConfig where
  /-- The module of items that stand outside any module. -/
  defaultModule : String := "Main"
  /-- How deep calls may nest. -/
  maxDepth : Nat := 256
  /-- Whether the command writes programs as JSON. -/
  emitJson : Bool := false
  deriving DecidableEq, Repr, Inhabited

inductive ConfigError where
  | invalidToml
  | invalidValue (key value : String)
  | unreadable (path reason : String)
  deriving DecidableEq, Repr, Inhabited

def ConfigError.message : ConfigError → String
  | invalidToml => "invalid defspec.toml: not a project file"
  | invalidValue key value => "invalid value for " ++ key ++ ": " ++ Text.quoted value
  | unreadable path reason => "cannot read " ++ path ++ ": " ++ reason

/-- The declaration of a value module. -/
inductive ModuleDecl where
  | integer (min max default : Option Int)
  | float (min max default : Option Float)
  | text (pattern : Option String) (minLength : Nat) (maxLength : Option Nat)
      (default : Option String)
  | atoms (members : List String)
  | list (minLength : Nat) (maxLength : Option Nat)
  deriving Inhabited

structure ProjectConfig where
  compiler : CompilerConfig := {}
  /-- The declared value modules in ascending order of their names. -/
  modules : List (String × ModuleDecl) := []
  deriving Inhabited

/-! ## Decoding -/

namespace Toml.Value

def text? : Value → Option String
  | text s => some s
  | _ => none

/-- An integer of 64 bits with a sign. -/
def int? : Value → Option Int
  | int n => if -9223372036854775808 ≤ n && n < 9223372036854775808 then some n else none
  | _ => none

/-- A count of 64 bits. -/
def nat? : Value → Option Nat
  | int n => if 0 ≤ n && n < 18446744073709551616 then some n.toNat else none
  | _ => none

/-- Whether every integer in a value has 64 bits, with a sign or without. -/
def intsFit (v : Value) : Bool := v.intsWithin (-9223372036854775808) 18446744073709551616

/-- Whether every integer in a value has 128 bits, with a sign or without. -/
def intsFitTwice (v : Value) : Bool :=
  v.intsWithin (-170141183460469231731687303715884105728) 340282366920938463463374607431768211456

/-- A number, whether it is written with a fraction or not. -/
def float? : Value → Option Float
  | float x => some x
  | int n => some (Float.ofInt n)
  | _ => none

def bool? : Value → Option Bool
  | bool b => some b
  | _ => none

def texts? : Value → Option (List String)
  | array items => items.mapM text?
  | _ => none

end Toml.Value

/-- Decodes an entry that may be left out; the outer option tells whether it has the right kind. -/
def optionalEntry? {α : Type} (entries : List (String × Toml.Value)) (key : String)
    (decode : Toml.Value → Option α) : Option (Option α) :=
  match entries.lookup key with
  | none => some none
  | some v => (decode v).map some

namespace CompilerConfig

def ofEntries? (entries : List (String × Toml.Value)) : Option CompilerConfig := do
  let defaultModule ← optionalEntry? entries "default_module" Toml.Value.text?
  let maxDepth ← optionalEntry? entries "max_call_depth" Toml.Value.nat?
  let emitJson ← optionalEntry? entries "emit_json" Toml.Value.bool?
  return { defaultModule := defaultModule.getD "Main", maxDepth := maxDepth.getD 256
           emitJson := emitJson.getD false }

/-- The settings of a table, or of an array that lists them in order.  A date counts as a table
without settings. -/
def ofToml? : Toml.Value → Option CompilerConfig
  | .table entries => ofEntries? entries
  | .array items => ofEntries? (["default_module", "max_call_depth", "emit_json"].zip items)
  | .moment _ => some {}
  | _ => none

/-- Settings that make sense. -/
def checked (config : CompilerConfig) : Except ConfigError CompilerConfig :=
  if (Text.trim config.defaultModule).isEmpty then
    .error (.invalidValue "default_module" config.defaultModule)
  else if config.maxDepth = 0 then .error (.invalidValue "max_call_depth" "0")
  else .ok config

/-- A count in decimal notation that fits into 64 bits. -/
def readCount? (text : List Char) : Option Nat :=
  let digits := match text with
    | '+' :: cs => cs
    | cs => cs
  (Decimal.readNat? digits).bind fun n => if n < 18446744073709551616 then some n else none

def overrideModule (setting? : Option String) (config : CompilerConfig) : CompilerConfig :=
  match setting? with
  | some value =>
      let name := Text.trim value
      if name.isEmpty then config else { config with defaultModule := name }
  | none => config

def overrideDepth (setting? : Option String) (config : CompilerConfig) :
    Except ConfigError CompilerConfig :=
  match setting? with
  | some value =>
      let trimmed := Text.trim value
      if trimmed.isEmpty then .ok config
      else
        match readCount? trimmed.toList with
        | some depth => .ok { config with maxDepth := depth }
        | none => .error (.invalidValue "DEFSPEC_MAX_CALL_DEPTH" value)
  | none => .ok config

/-- Settings with those of the environment in their place; blank variables count as unset. -/
def withEnvironment (environment : String → Option String) (config : CompilerConfig) :
    Except ConfigError CompilerConfig := do
  let config := overrideModule (environment "DEFSPEC_DEFAULT_MODULE") config
  let config ← overrideDepth (environment "DEFSPEC_MAX_CALL_DEPTH") config
  config.checked

end CompilerConfig

namespace ModuleDecl

def ofEntries? (entries : List (String × Toml.Value)) : Option ModuleDecl := do
  let kind ← (entries.lookup "kind").bind Toml.Value.text?
  match kind with
  | "integer" =>
      return .integer (← optionalEntry? entries "min" Toml.Value.int?)
        (← optionalEntry? entries "max" Toml.Value.int?)
        (← optionalEntry? entries "default" Toml.Value.int?)
  | "float" =>
      return .float (← optionalEntry? entries "min" Toml.Value.float?)
        (← optionalEntry? entries "max" Toml.Value.float?)
        (← optionalEntry? entries "default" Toml.Value.float?)
  | "text" =>
      return .text (← optionalEntry? entries "pattern" Toml.Value.text?)
        ((← optionalEntry? entries "min_len" Toml.Value.nat?).getD 0)
        (← optionalEntry? entries "max_len" Toml.Value.nat?)
        (← optionalEntry? entries "default" Toml.Value.text?)
  | "atoms" => return .atoms (← (entries.lookup "members").bind Toml.Value.texts?)
  | "list" =>
      return .list ((← optionalEntry? entries "min_len" Toml.Value.nat?).getD 0)
        (← optionalEntry? entries "max_len" Toml.Value.nat?)
  | _ => none

/-- The entries of a declaration of some kind beside `kind`, in their order. -/
def fieldNames : (kind : String) → List String
  | "integer" => ["min", "max", "default"]
  | "float" => ["min", "max", "default"]
  | "text" => ["pattern", "min_len", "max_len", "default"]
  | "atoms" => ["members"]
  | "list" => ["min_len", "max_len"]
  | _ => []

/-- The declaration of a table, or of an array that lists the kind and all entries in order. -/
def ofToml? (v : Toml.Value) : Option ModuleDecl :=
  if v.intsFit then
    match v with
    | .table entries => ofEntries? entries
    | .array (.text kind :: items) =>
        if items.length = (fieldNames kind).length then
          ofEntries? (("kind", .text kind) :: (fieldNames kind).zip items)
        else
          none
    | _ => none
  else
    none

/-- The pattern of a text module, which must be a regular expression. -/
def readPattern (name : String) : Option String → Except ConfigError (Option TextPattern)
  | none => .ok none
  | some source =>
      match TextPattern.ofText? source with
      | some pattern => .ok (some pattern)
      | none => .error (.invalidValue ("modules." ++ name ++ ".pattern") "not a regular expression")

/-- The value module that a declaration stands for. -/
def toModule (name : String) : ModuleDecl → Except ConfigError ValueModule
  | integer min max none => .ok (.integerRange min max)
  | integer min max (some n) => .ok (.integers min max (some n))
  | float min max none => .ok (.floatRange min max)
  | float min max (some x) => .ok (.floats min max x)
  | text pattern minLength maxLength default =>
      (readPattern name pattern).map fun found =>
        let fallback := if 0 < minLength || pattern.isSome then none else some ""
        .texts found minLength maxLength (default.or fallback)
  | atoms [] => .error (.invalidValue ("modules." ++ name ++ ".members") "[]")
  | atoms members => .ok (.atoms members)
  | list minLength maxLength => .ok (.lists minLength maxLength)

end ModuleDecl

namespace ProjectConfig

/-- Declarations in ascending order of their names. -/
def sortModules (modules : List (String × ModuleDecl)) : List (String × ModuleDecl) :=
  modules.mergeSort fun a b => a.1 ≤ b.1

def modulesOfToml? (v : Toml.Value) : Option (List (String × ModuleDecl)) := do
  let entries ← v.table?
  let modules ← entries.mapM fun (name, v) => (ModuleDecl.ofToml? v).map fun decl => (name, decl)
  return sortModules modules

def ofToml? (v : Toml.Value) : Option ProjectConfig := do
  let entries ← v.table?
  let compiler ← optionalEntry? entries "compiler" CompilerConfig.ofToml?
  let modules ← optionalEntry? entries "modules" modulesOfToml?
  return { compiler := compiler.getD {}, modules := modules.getD [] }

/-- Reads a project file. -/
def ofText (text : String) : Except ConfigError ProjectConfig :=
  match ((Toml.read? text).filter Toml.Value.intsFitTwice).bind ofToml? with
  | none => .error .invalidToml
  | some project => project.compiler.checked.map fun compiler => { project with compiler }

def registerAll : Registry → List (String × ModuleDecl) → Except ConfigError Registry
  | registry, [] => .ok registry
  | registry, (name, decl) :: rest =>
      match decl.toModule name with
      | .error e => .error e
      | .ok checker => registerAll (registry.insert name checker) rest

/-- The registry of the declared value modules. -/
def registry (project : ProjectConfig) : Except ConfigError Registry :=
  registerAll [] project.modules

end ProjectConfig
end Clausal
