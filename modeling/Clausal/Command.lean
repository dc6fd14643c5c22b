import Clausal.Constant
import Clausal.Core.Encode
import Clausal.Core.Render
import Clausal.Evaluation

/-!
# The command

The command compiles a source file and shows the program, or calls one of its functions.  Its run
is a function of its arguments, the environment and the files it may read.
-/

namespace Clausal
namespace Command

def version : String := "0.1.0"

def usage : String :=
  "defspecc " ++ version ++ "\n\n"
    ++ "Usage: defspecc <file> [--json] [--config <defspec.toml>] [--call Module.fun args...]\n"

/-- What the command can see of its surroundings. -/
structure World where
  environment : String → Option String
  /-- The text of a file, or the reason why it cannot be read. -/
  fileText : String → Except String String
  isFile : String → Bool

structure Output where
  exit : UInt32
  stdout : String
  stderr : String
  deriving DecidableEq, Repr, Inhabited

/-! ## Arguments -/

structure Options where
  input : Option String := none
  json : Bool := false
  config : Option String := none
  /-- The function to call and its arguments. -/
  call : Option (String × List String) := none
  deriving DecidableEq, Repr, Inhabited

/-- Reads the arguments; everything after the function to call belongs to the call. -/
def readOptions : Options → List String → Except String Options
  | options, [] => .ok options
  | options, "--json" :: rest => readOptions { options with json := true } rest
  | _, ["--config"] => .error "--config requires a path"
  | options, "--config" :: path :: rest => readOptions { options with config := some path } rest
  | _, ["--call"] => .error "--call requires Module.function"
  | options, "--call" :: target :: args => .ok { options with call := some (target, args) }
  | options, arg :: rest =>
      if arg.startsWith "--" then .error ("unknown option " ++ arg)
      else if options.input.isSome then .error ("unexpected argument " ++ arg)
      else readOptions { options with input := some arg } rest

/-! ## Files -/

/-- Leaves out the steps of a path that lead nowhere, from its end on; the last character of the
path comes first. -/
def dropIdleSteps : List Char → List Char
  | '/' :: cs => dropIdleSteps cs
  | '.' :: '/' :: cs => dropIdleSteps cs
  | cs => cs

/-- The project file beside a source file. -/
def siblingConfig (input : String) : String :=
  let name := dropIdleSteps input.toList.reverse
  let folder := dropIdleSteps (name.dropWhile (· != '/'))
  let rooted := input.toList.head? == some '/'
  if name.isEmpty then "./defspec.toml"
  else if !folder.isEmpty then String.ofList folder.reverse ++ "/defspec.toml"
  else if rooted then "/defspec.toml"
  else "defspec.toml"

def readConfig (world : World) (path : String) : Except ConfigError ProjectConfig :=
  match world.fileText path with
  | .error reason => .error (.unreadable path reason)
  | .ok text => ProjectConfig.ofText text

/-- The project file that was asked for, or else the one beside the source file, if there is one. -/
def projectFile (world : World) (options : Options) (input : String) :
    Except ConfigError ProjectConfig :=
  match options.config with
  | some path => readConfig world path
  | none =>
      let sibling := siblingConfig input
      if world.isFile sibling then readConfig world sibling else .ok {}

/-- The project of a source file, with the settings of the environment. -/
def loadProject (world : World) (options : Options) (input : String) :
    Except ConfigError ProjectConfig := do
  let project ← projectFile world options input
  let compiler ← project.compiler.withEnvironment world.environment
  return { project with compiler }

/-! ## Reports -/

/-- One line for each function compiled, if the environment asks for them. -/
def compileReport (world : World) (defaultModule : String) (source : List Char) : String :=
  match world.environment "DEFSPEC_COMPILE_DEBUG", lowerSource defaultModule source with
  | some _, .ok modules =>
      String.join <| (Compile.announced modules).map fun (owner, decl) =>
        "[defspec] " ++ owner ++ "." ++ decl.name ++ "/" ++ toString decl.arity ++ ": "
          ++ toString decl.implementations.length ++ " implementation(s)\n"
  | _, _ => ""

/-- One line for each implementation chosen, if the environment asks for them. -/
def dispatchReport (world : World) (dispatches : List Machine.Dispatch) : String :=
  match world.environment "DEFSPEC_DISPATCH_DEBUG" with
  | some _ =>
      String.join <| dispatches.map fun d =>
        "[dispatch] " ++ d.owner ++ "." ++ d.function ++ "/" ++ toString d.arity
          ++ " -> implementation " ++ toString d.index ++ "\n"
  | none => ""

def success (report stdout : String) : Output := { exit := 0, stdout, stderr := report }

def failure (report message : String) : Output :=
  { exit := 1, stdout := "", stderr := report ++ "Error: " ++ message ++ "\n" }

/-! ## Running -/

/-- The values of the arguments of a call. -/
def readArguments : List String → Except String (List Value)
  | [] => .ok []
  | raw :: rest =>
      match Constant.read raw with
      | .error e => .error ("argument " ++ raw ++ ": " ++ e.message)
      | .ok value => (readArguments rest).map (value :: ·)

/-- The machine for a call and the values of its arguments. -/
def prepareCall (project : ProjectConfig) (program : Core.Program) (args : List String) :
    Except String (Machine × List Value) := do
  let values ← readArguments args
  let registry ← project.registry.mapError ConfigError.message
  let machine ← (Machine.build program registry project.compiler.maxDepth).mapError fun fault =>
    (EvaluationError.fault fault).message
  return (machine, values)

/-- Calls a function of a program. -/
def runCall (world : World) (report : String) (project : ProjectConfig) (program : Core.Program)
    (target : String) (args : List String) : Output :=
  match prepareCall project program args with
  | .error message => failure report message
  | .ok (machine, values) =>
      let (result, dispatches) := machine.traceQualified target values
      let report := report ++ dispatchReport world dispatches
      match result with
      | .ok value => success report (value.render ++ "\n")
      | .error fault => failure report (EvaluationError.fault fault).message

/-- Shows a program. -/
def programText (options : Options) (project : ProjectConfig) (program : Core.Program) : String :=
  if options.json || project.compiler.emitJson then program.encode.pretty ++ "\n"
  else program.render ++ "\n"

/-- Compiles a source file and does what the options ask for. -/
def runFile (world : World) (options : Options) (input : String) : Output :=
  match loadProject world options input with
  | .error e => failure "" e.message
  | .ok project =>
      match world.fileText input with
      | .error reason => failure "" ("cannot read " ++ input ++ ": " ++ reason)
      | .ok text =>
          let source := text.toList
          let defaultModule := project.compiler.defaultModule
          let report := compileReport world defaultModule source
          match compileSource defaultModule source with
          | .error e => failure report (e.report source)
          | .ok program =>
              match options.call with
              | some (target, args) => runCall world report project program target args
              | none => success report (programText options project program)

/-- Runs the command. -/
def run (world : World) (args : List String) : Output :=
  if args.isEmpty || args.any fun arg => arg == "-h" || arg == "--help" then success "" usage
  else if args.head? == some "--version" then success "" ("defspecc " ++ version ++ "\n")
  else
    match readOptions {} args with
    | .error message => failure "" message
    | .ok options =>
        match options.input with
        | none => failure "" "missing input file"
        | some input => runFile world options input

end Command
end Clausal
