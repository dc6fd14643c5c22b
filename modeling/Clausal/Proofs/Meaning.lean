import Clausal.Machine.Basic
import Clausal.Surface.Tree

/-!
# The meaning of a source file

A reference interpreter that runs surface trees as they were read.  Variables are kept in an
environment from names to values; nothing is lowered, and there are no slots and no frames.  What a
tree stands for as a clause, a constant, an annotation or a type is read off the tree here, and
`Clausal.Proofs.Lowering.Readings` compares that with what lowering makes of it.

* A binding is visible from the next statement to the end of its block, and its value is computed
  before it hides an earlier binding of the name.
* The branches of a condition have scopes of their own.
* A default is evaluated in the empty environment, a single body starts from the parameters, and a
  clause starts from what its own head binds.
* Clauses are tried in the order of the source; a guard that fails is a guard that does not hold.
* A name that is called means the builtin of that name, if there is one.

Forms that no accepted source holds in the place of an expression have the meaning `meaningless`.
-/

namespace Clausal
namespace Meaning

open Clausal.Core (Builtin RecordOp)
open Clausal.Machine (truthOf branchOf tailItems fieldOf applyBuiltin)

/-- The visible variables with their values, the latest first. -/
abbrev Env := List (String × Value)

/-- What the code of a module can reach. -/
structure Site where
  owner : String
  registry : Registry
  /-- Calls a function of a module. -/
  call : (owner name : String) → List Value → Except Fault Value

/-- The outcome of a form that is no expression. -/
def meaningless (e : Surface.Expr) : Except Fault Value :=
  .error (.typeError (e.describe ++ " has no meaning"))

/-! ## Expressions -/

/-- Calls what a callee stands for. -/
def callNamed (site : Site) (callee : Surface.Expr) (args : List Value) : Except Fault Value :=
  match callee with
  | .ident _ name =>
      -- A variable of the name plays no part: calling a variable is not accepted.
      match Builtin.ofName? name with
      | some builtin => applyBuiltin builtin args
      | none => site.call site.owner name args
  | .field _ target name => site.call (target.path?.getD "") name args
  | e => meaningless e

mutual

def evalExpr (site : Site) : Env → Surface.Expr → Except Fault Value
  | _, .integer _ n => .ok (.int n)
  | _, .float _ x => .ok (.float x)
  | _, .text _ s => .ok (.text s)
  | _, .atom _ name => .ok (.atom name)
  | _, .bool _ b => .ok (.bool b)
  | _, .nil _ => .ok .nil
  | env, .ident span name =>
      match env.lookup name with
      | some value => .ok value
      | none => meaningless (.ident span name)
  | env, .unary _ op operand => do
      let value ← evalExpr site env operand
      value.applyUnary op
  | env, .binary _ (.strict op) left right => do
      let a ← evalExpr site env left
      let b ← evalExpr site env right
      a.apply op b
  -- The right operand of a logical operator is evaluated only if the left one does not decide.
  | env, .binary _ .and left right => do
      let a ← truthOf .and (← evalExpr site env left)
      if a then
        let b ← truthOf .and (← evalExpr site env right)
        return .bool b
      else
        return .bool false
  | env, .binary _ .or left right => do
      let a ← truthOf .or (← evalExpr site env left)
      if a then
        return .bool true
      else
        let b ← truthOf .or (← evalExpr site env right)
        return .bool b
  | env, .call _ callee args => do
      let args ← evalExprs site env args
      callNamed site callee args
  | env, .field _ target name => do
      let target ← evalExpr site env target
      fieldOf target name
  | env, .paren _ [single] => evalExpr site env single
  | env, .list _ items => return .list (← evalExprs site env items)
  | env, .listTail _ items tail => do
      let items ← evalExprs site env items
      let rest ← tailItems (← evalExpr site env tail)
      return .list (items ++ rest)
  | env, .tuple _ items => return .tuple (← evalExprs site env items)
  | env, .map _ entries => return .ofEntries (← evalEntries site env entries)
  -- A branch starts from the environment of the whole, and nothing of its own comes back.
  | env, .cond _ condition thenBlock elseBlock => do
      let branch ← branchOf (← evalExpr site env condition)
      if branch then evalStmts site env .nil thenBlock else evalStmts site env .nil elseBlock
  | _, e => meaningless e

def evalExprs (site : Site) : Env → List Surface.Expr → Except Fault (List Value)
  | _, [] => .ok []
  | env, e :: es => do
      let v ← evalExpr site env e
      let vs ← evalExprs site env es
      return v :: vs

def evalEntries (site : Site) :
    Env → List (Surface.Expr × Surface.Expr) → Except Fault (List (Value × Value))
  | _, [] => .ok []
  | env, (k, v) :: rest => do
      let k ← evalExpr site env k
      let v ← evalExpr site env v
      let rest ← evalEntries site env rest
      return (k, v) :: rest

/-- The value of a block; `last` is the value of the statement before. -/
def evalStmts (site : Site) : Env → (last : Value) → List Surface.Stmt → Except Fault Value
  | _, last, [] => .ok last
  | env, _, .bind _ name value :: rest => do
      -- The value still sees what the name stood for before.
      let value ← evalExpr site env value
      evalStmts site ((name, value) :: env) value rest
  | env, _, .expr value :: rest => do
      let value ← evalExpr site env value
      evalStmts site env value rest

end

/-! ## Patterns -/

/-- Names that begin with an underscore match anything and are not bound. -/
def isBlank (name : String) : Bool :=
  match name.toList with
  | '_' :: _ => true
  | _ => false

/-- The value of a constant that may stand in a clause head.  A number carries its own sign; a minus in
front of a float that was read apart from it counts as well. -/
def constant? : Surface.Expr → Option Value
  | .integer _ n => some (.int n)
  | .float _ x => some (.float x)
  | .unary _ .neg (.float _ x) => some (.float (-x))
  | .text _ s => some (.text s)
  | .atom _ name => some (.atom name)
  | .bool _ b => some (.bool b)
  | .nil _ => some .nil
  | _ => none

mutual

/-- Matches a value and gives the environment with the names the pattern binds, or `none`. -/
def matchPattern? : Surface.Expr → Value → Env → Option Env
  | .ident _ name, value, env =>
      if isBlank name then some env
      else
        -- A name that occurs twice in a head asks for the same value twice.
        match env.lookup name with
        | some held => if held.same value then some env else none
        | none => some ((name, value) :: env)
  | .paren _ [single], value, env => matchPattern? single value env
  | .tuple _ items, .tuple values, env => matchAll? items values env
  | .list _ items, .list values, env => matchAll? items values env
  | .listTail _ items tail, .list values, env =>
      match matchFront? items values env with
      | some (rest, env) => matchPattern? tail (.list rest) env
      | none => none
  | .map _ entries, value, env => matchEntries? entries value env
  -- What is left are constants.
  | e, value, env =>
      match constant? e with
      | some constant => if constant.same value then some env else none
      | none => none

def matchAll? : List Surface.Expr → List Value → Env → Option Env
  | [], [], env => some env
  | e :: es, v :: vs, env =>
      match matchPattern? e v env with
      | some env => matchAll? es vs env
      | none => none
  | _, _, _ => none

/-- Matches the first values of a list and gives the values that are left. -/
def matchFront? : List Surface.Expr → List Value → Env → Option (List Value × Env)
  | [], values, env => some (values, env)
  | e :: es, v :: vs, env =>
      match matchPattern? e v env with
      | some env => matchFront? es vs env
      | none => none
  | _ :: _, [], _ => none

def matchEntries? : List (Surface.Expr × Surface.Expr) → Value → Env → Option Env
  | [], _, env => some env
  | (k, e) :: rest, value, env =>
      match (constant? k).bind fun key => value.mapGet? key with
      | some held =>
          match matchPattern? e held env with
          | some env => matchEntries? rest value env
          | none => none
      | none => none

end

/-! ## Clauses -/

/-- Whether an entry of a body has the form of a clause, `(patterns) -> body` or
`(patterns) when guard -> body`. -/
def isClause : Surface.Stmt → Bool
  | .expr (.clause _ (.paren _ _) _) => true
  | .expr (.clause _ (.guarded _ (.paren _ _) _) _) => true
  | _ => false

/-- Whether a body is made only of clauses. -/
def isClauseList (body : List Surface.Stmt) : Bool := !body.isEmpty && body.all isClause

/-- Whether a guard holds.  One that gives anything but `true` does not, nor does one that ends with a
fault. -/
def holds (site : Site) (env : Env) (guard : Surface.Expr) : Bool :=
  match evalExpr site env guard with
  | .ok (.bool true) => true
  | _ => false

/-- What a clause runs and in which environment, if it takes the arguments. -/
def enter? (site : Site) (args : List Value) : Surface.Stmt → Option (Env × Surface.Expr)
  | .expr (.clause _ (.paren _ patterns) body) =>
      match matchAll? patterns args [] with
      | some env => some (env, body)
      | none => none
  | .expr (.clause _ (.guarded _ (.paren _ patterns) guard) body) =>
      match matchAll? patterns args [] with
      -- The guard sees what the head has bound.
      | some env => if holds site env guard then some (env, body) else none
      | none => none
  | _ => none

/-- The first clause that takes the arguments, with its environment. -/
def chooseClause? (site : Site) (args : List Value) :
    List Surface.Stmt → Option (Env × Surface.Expr)
  | [] => none
  | clause :: rest =>
      match enter? site args clause with
      | some entered => some entered
      | none => chooseClause? site args rest

/-! ## Parameters -/

/-- The default of a parameter, which stands behind its annotation. -/
def default? (param : Surface.Param) : Option Surface.Expr :=
  match param.type with
  | .defaulted _ _ value => some value
  | _ => none

/-- The annotation of a parameter, without a default. -/
def annotation (param : Surface.Param) : Surface.Expr :=
  match param.type with
  | .defaulted _ inner _ => inner
  | e => e

/-- The type in a request that an annotation makes: `guard[type]` or `validate[type]`. -/
def requested? (request : String) (param : Surface.Param) : Option Surface.Expr :=
  match annotation param with
  | .index _ (.ident _ name) [type] => if name == request then some type else none
  | _ => none

/-- Whether a value is of a base type. -/
def ofBase : BaseType → Value → Bool
  | .integer => Value.isInteger
  | .float => Value.isFloat
  | .boolean => Value.isBoolean
  | .text => Value.isText
  | .binary => Value.isBinary
  | .list => Value.isList
  | .tuple => Value.isTuple
  | .map => Value.isMap
  | .function => Value.isFunction
  | .pid => Value.isPid
  | .reference => Value.isReference
  | .any => fun _ => true

/-- The constraint of a type variable; the first one of its name counts. -/
def constraint? (constraints : List Surface.Constraint) (name : String) :
    Option Surface.Constraint :=
  constraints.find? fun c => c.name == name

/-- The base type that a written type stands for, if following the bounds of variables leads to one
within some steps. -/
def baseOf? (constraints : List Surface.Constraint) : (steps : Nat) → Surface.Expr → Option BaseType
  | 0, _ => none
  | steps + 1, .ident _ name =>
      match constraint? constraints name with
      -- A variable hides a base type of its name.
      | some c => baseOf? constraints steps c.bound
      | none => BaseType.ofName? name
  | _ + 1, _ => none

/-- The value module that a written type names in a module `owner`. -/
def moduleOf? (constraints : List Surface.Constraint) (owner : String) :
    Surface.Expr → Option String
  | .ident _ name =>
      if (constraint? constraints name).isSome then none
      else if name == "self" then some owner
      else if (BaseType.ofName? name).isSome then none
      else some name
  | e => e.path?

section Functions

variable (site : Site) (f : Surface.FunctionDef)

/-- Whether an argument is what a `guard[..]` parameter asks for. -/
def passes (param : Surface.Param) (value : Value) : Bool :=
  match requested? "guard" param with
  | none => true
  | some type =>
      -- No chain of variables is longer than the list of constraints unless it runs in a circle.
      match baseOf? f.constraints (f.constraints.length + 1) type with
      | some base => ofBase base value
      | none => false

/-- Whether all arguments are what the `guard[..]` parameters ask for. -/
def passesAll : List Surface.Param → List Value → Bool
  | param :: params, value :: values => passes f param value && passesAll params values
  | _, _ => true

/-- What the module of a `validate[..]` parameter makes of an argument. -/
def validated (param : Surface.Param) (value : Value) : Except Fault Value :=
  match (requested? "validate" param).bind (moduleOf? f.constraints site.owner) with
  | none => .ok value
  | some checker =>
      match site.registry.get? checker with
      | none => .error (.unknownModule checker)
      | some valueModule =>
          match valueModule.validate value with
          | .ok accepted => .ok accepted
          | .error diagnostic => .error (.validation param.name value diagnostic)

/-- The environment a single body starts from; arguments are validated in order. -/
def bindParams : List Surface.Param → List Value → Except Fault Env
  | param :: params, value :: values => do
      -- The first parameter is validated first, and is the last one in the environment.
      let value ← validated site f param value
      let env ← bindParams params values
      return env ++ [(param.name, value)]
  | _, _ => .ok []

/-! ## Functions -/

def arity : Nat := f.params.length

/-- Number of parameters without a default. -/
def required : Nat := (f.params.filter fun param => (default? param).isNone).length

/-- How many arguments a function takes. -/
def expectedArity : String :=
  if required f = arity f then toString (arity f)
  else toString (required f) ++ ".." ++ toString (arity f)

/-- Gives each parameter an argument or its default; `spare` arguments go to the first parameters
that have a default. -/
def fillDefaults : (spare : Nat) → List Surface.Param → List Value → Except Fault (List Value)
  | _, [], _ => .ok []
  | spare, param :: params, args =>
      match default? param, spare with
      | some default, 0 => do
          let value ← evalExpr site [] default
          return value :: (← fillDefaults 0 params args)
      | some _, spare + 1 => return args.take 1 ++ (← fillDefaults spare params (args.drop 1))
      | none, spare => return args.take 1 ++ (← fillDefaults spare params (args.drop 1))

/-- The full arguments of a call. -/
def completeArgs (args : List Value) : Except Fault (List Value) :=
  if args.length < required f ∨ arity f < args.length then
    .error (.arity (site.owner ++ "." ++ f.name) (expectedArity f) args.length)
  else if args.length = arity f then
    .ok args
  else
    fillDefaults site (args.length - required f) f.params args

def noClause (args : List Value) : Except Fault Value :=
  .error (.noClause (site.owner ++ "." ++ f.name ++ "/" ++ toString (arity f)) args)

/-- Runs a function on its full arguments. -/
def runBody (args : List Value) : Except Fault Value :=
  if isClauseList f.body then
    match chooseClause? site args f.body with
    | some (env, body) => evalExpr site env body
    | none => noClause site f args
  else if passesAll f f.params args then do
    let env ← bindParams site f f.params args
    evalStmts site env .nil f.body
  else
    noClause site f args

end Functions

/-! ## Modules -/

/-- The items of a module among those of a file, in order.  Items that stand outside any block
belong to the default module. -/
def membersOf (defaultModule owner : String) (items : List Surface.Item) : List Surface.Member :=
  items.flatMap fun
    | .block definition => if definition.name == owner then definition.members else []
    | .member member => if defaultModule == owner then [member] else []

/-- Whether a module is mentioned. -/
def mentions (defaultModule owner : String) (items : List Surface.Item) : Bool :=
  items.any fun
    | .block definition => definition.name == owner
    | .member _ => defaultModule == owner

def functionsAmong (members : List Surface.Member) : List Surface.FunctionDef :=
  members.filterMap fun
    | .function f => some f
    | .struct _ => none

def structAmong (members : List Surface.Member) : Bool :=
  members.any fun
    | .function _ => false
    | .struct _ => true

/-! ## Calls -/

/-- A source file and what it runs in. -/
structure World where
  file : Surface.SourceFile
  /-- The module of the items that stand outside any block. -/
  defaultModule : String
  registry : Registry
  schemas : List (String × Machine.RecordSchema)
  maxDepth : Nat

/-- The items of a module. -/
def World.members (world : World) (owner : String) : List Surface.Member :=
  membersOf world.defaultModule owner world.file.items

/-- What a call can run: a function as it is written, or an operation on a module's records. -/
inductive Routine where
  | written (f : Surface.FunctionDef)
  | record (op : RecordOp)

/-- The name under which a module offers a record operation. -/
def opName : RecordOp → String
  | .new => "new"
  | .validate => "validate"
  | .update => "update"

/-- The operation that a name stands for in a module with a struct. -/
def opNamed? (name : String) : Option RecordOp :=
  [RecordOp.new, .validate, .update].find? fun op => opName op == name

def routine? (world : World) (owner name : String) : Option Routine :=
  -- A module with a struct accepts no function of its own under these three names.
  match if structAmong (world.members owner) then opNamed? name else none with
  | some op => some (.record op)
  | none =>
      ((functionsAmong (world.members owner)).find? fun f => f.name == name).map .written

/-- How many arguments a record operation takes. -/
def opArity : RecordOp → String
  | .new => "0..1"
  | .validate => "1"
  | .update => "2"

/-- The full arguments of a record operation; a new record is made from the empty map when no map
is given. -/
def opArgs? : RecordOp → List Value → Option (List Value)
  | .new, [] => some [.map []]
  | .new, [mapping] => some [mapping]
  | .validate, [mapping] => some [mapping]
  | .update, [record, mapping] => some [record, mapping]
  | _, _ => none

/-- Runs a record operation of a module. -/
def runRecord (world : World) (owner : String) (op : RecordOp) (args : List Value) :
    Except Fault Value :=
  match opArgs? op args with
  | none => .error (.arity (owner ++ "." ++ opName op) (opArity op) args.length)
  | some args =>
      match world.schemas.lookup owner with
      | some schema => Machine.applyRecordOp schema owner op args
      | none => .error (.unknownModule owner)

/-- Runs a routine of a module; calls in it are made by `call`. -/
def run (world : World) (call : (owner name : String) → List Value → Except Fault Value)
    (owner : String) (routine : Routine) (args : List Value) : Except Fault Value :=
  match routine with
  | .written f => do
      let site : Site := { owner, registry := world.registry, call }
      runBody site f (← completeArgs site f args)
  | .record op => runRecord world owner op args

/-- Calls a routine by `run`, or else an operation of a value module. -/
def dispatch (world : World)
    (run : (owner : String) → Routine → List Value → Except Fault Value)
    (owner name : String) (args : List Value) : Except Fault Value :=
  -- Functions of the source come before operations of a value module of the same name.
  match routine? world owner name with
  | some routine => run owner routine args
  | none =>
      match world.registry.get? owner with
      | some checker => Machine.callContract checker owner name args
      | none =>
          if mentions world.defaultModule owner world.file.items then
            .error (.undefinedFunction (Machine.functionLabel owner name args))
          else
            .error (.unknownModule owner)

/-- A call that may nest `remaining` deep. -/
def callWithin (world : World) :
    (remaining : Nat) → (owner name : String) → List Value → Except Fault Value
  | 0 => dispatch world fun _ _ _ => .error (.stackOverflow world.maxDepth)
  | remaining + 1 => dispatch world (run world (callWithin world remaining))

/-- Calls a function of a module. -/
def call (world : World) (owner name : String) (args : List Value) : Except Fault Value :=
  callWithin world world.maxDepth owner name args

end Meaning
end Clausal
