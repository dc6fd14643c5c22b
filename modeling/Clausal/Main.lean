import Clausal.Command

/-!
# The command's outer layer

Looks up what the command may ask of its surroundings, runs it, and prints what it answers.
-/

namespace Clausal
namespace Main

/-- The environment variables that the command looks at. -/
def settingNames : List String :=
  ["DEFSPEC_DEFAULT_MODULE", "DEFSPEC_MAX_CALL_DEPTH", "DEFSPEC_COMPILE_DEBUG",
   "DEFSPEC_DISPATCH_DEBUG"]

/-- The values of the variables that are set. -/
def readEnvironment : IO (List (String × String)) :=
  settingNames.filterMapM fun name => do
    return (← IO.getEnv name).map fun value => (name, value)

/-- Why a file cannot be read. -/
def reasonOf : IO.Error → String
  | .noFileOrDirectory .. => "No such file or directory (os error 2)"
  | e => toString e

/-- The text of a file, or the reason why it cannot be read. -/
def readText (path : String) : IO (Except String String) := do
  try
    return .ok (← IO.FS.readFile path)
  catch e =>
    return .error (reasonOf e)

/-- The files that a run of the command may ask for. -/
def candidates (args : List String) : List String :=
  match Command.readOptions {} args with
  | .error _ => []
  | .ok options =>
      options.config.toList ++
        options.input.elim [] fun input => [input, Command.siblingConfig input]

/-- The surroundings of the command. -/
def observe (args : List String) : IO Command.World := do
  let environment ← readEnvironment
  let files ← (candidates args).mapM fun path => do return (path, ← readText path)
  return {
    environment := fun name => environment.lookup name
    fileText := fun path => (files.lookup path).getD (.error (reasonOf (.noFileOrDirectory path 2 "")))
    isFile := fun path => ((files.lookup path).getD (.error "")).isOk }

end Main
end Clausal

def main (args : List String) : IO UInt32 := do
  let world ← Clausal.Main.observe args
  let output := Clausal.Command.run world args
  IO.print output.stdout
  IO.eprint output.stderr
  return output.exit
