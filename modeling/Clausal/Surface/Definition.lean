import Clausal.Surface.Expression

/-!
# Reading source files

Functions, structs and modules.  `readFile` reads a whole text and goes on after a faulty item at
the next token that can begin one, so that it reports every faulty item and keeps every sound one.
-/

namespace Clausal
namespace Surface

open Token (Kind)

namespace Reader

section Forms

variable (layout : Layout) (limit : Nat)

/-- An expression at the given level. -/
def expression (least : Precedence) : Reader Expr := expressionAt layout limit least

/-- A type; it ends before `\\`, `when` and `->`. -/
def typeExpression : Reader Expr := expression layout limit .or

/-! ## Functions -/

/-- `name: type`, where the type may be followed by `\\` and a default. -/
def parameter : Reader Param := do
  let target ← name layout "parameter name"
  if ← sees .colon then
    advance
    let type ← expression layout limit .default
    return { name := target.text, type, span := ← spanFrom layout target.span.start }
  else
    fail (.invalidForm
      ("parameter '" ++ target.text ++ "' needs a type: `" ++ target.text ++ ": type`")
      target.span)

def parameters : (rounds : Nat) → List Param → Reader (List Param)
  | 0, _ => exhausted
  | rounds + 1, params => do
      skipNewlines
      if ← sees .rightParen then
        return params
      let param ← parameter layout limit
      skipNewlines
      if ← sees .comma then
        advance
        parameters rounds (params ++ [param])
      else
        return params ++ [param]

/-- `T: bound, U: bound` -/
def constraints : (rounds : Nat) → List Constraint → Reader (List Constraint)
  | 0, _ => exhausted
  | rounds + 1, found => do
      skipNewlines
      let target ← name layout "type variable"
      let _ ← expect layout .colon
      let bound ← typeExpression layout limit
      let constraint : Constraint :=
        { name := target.text, bound, span := ← spanFrom layout target.span.start }
      if ← sees .comma then
        advance
        constraints rounds (found ++ [constraint])
      else
        return found ++ [constraint]

def functionDef : Reader FunctionDef := do
  let start := (← expect layout .kwDef).span.start
  let target ← name layout "function name"
  let _ ← expect layout .leftParen
  let params ← parameters layout limit limit []
  let _ ← expect layout .rightParen
  let returnType ←
    if ← sees .arrow then do
      advance
      pure (some (← typeExpression layout limit))
    else
      pure none
  let found ←
    if ← sees .kwWhere then do
      advance
      constraints layout limit limit []
    else
      pure []
  let body ← block layout limit (expressionAt layout limit)
  return { name := target.text, params, returnType, constraints := found, body
           span := ← spanFrom layout start }

/-! ## Structs -/

/-- The fields of a struct up to its closing brace.  A field ends at a comma, a separator or the
brace. -/
def fields : (rounds : Nat) → List FieldDef → Reader (List FieldDef)
  | 0, _ => exhausted
  | rounds + 1, found => do
      skipSeparators
      if ← sees .rightBrace then
        return found
      let target ← name layout "field name"
      let _ ← expect layout .colon
      let type ← typeExpression layout limit
      let field : FieldDef :=
        { name := target.text, type, span := ← spanFrom layout target.span.start }
      let lineEnded := (← get).seesAny Kind.isSeparator
      skipSeparators
      if ← sees .comma then
        advance
        fields rounds (found ++ [field])
      else if lineEnded || (← sees .rightBrace) then
        fields rounds (found ++ [field])
      else
        unexpected layout "',' or '\x7d'"

def structDef : Reader StructDef := do
  let start := (← expect layout .kwStruct).span.start
  let _ ← expect layout .leftBrace
  let found ← fields layout limit limit []
  let _ ← expect layout .rightBrace
  return { fields := found, span := ← spanFrom layout start }

/-! ## Modules -/

/-- What an item that does not begin is reported as. -/
def itemExpected : String := "'def', 'struct' or 'module'"

def member : Reader Member := do
  if ← sees .kwDef then
    return .function (← functionDef layout limit)
  else if ← sees .kwStruct then
    return .struct (← structDef layout limit)
  else
    unexpected layout itemExpected

/-- The further parts of a dotted module name. -/
def dottedName : (rounds : Nat) → String → Reader String
  | 0, _ => exhausted
  | rounds + 1, path => do
      if ← sees .dot then
        advance
        let part ← name layout "module name"
        dottedName rounds (path ++ "." ++ part.text)
      else
        return path

def members : (rounds : Nat) → List Member → Reader (List Member)
  | 0, _ => exhausted
  | rounds + 1, found => do
      skipSeparators
      if (← sees .rightBrace) || (← get).current.isNone then
        return found
      if ← sees .kwModule then
        fail (.invalidForm "modules cannot be nested" (← currentSpan layout))
      let next ← member layout limit
      members rounds (found ++ [next])

def moduleDef : Reader ModuleDef := do
  let start := (← expect layout .kwModule).span.start
  let first ← name layout "module name"
  let path ← dottedName layout limit first.text
  let _ ← expect layout .leftBrace
  let found ← members layout limit limit []
  let _ ← expect layout .rightBrace
  return { name := path, members := found, span := ← spanFrom layout start }

def item : Reader Item := do
  if ← sees .kwModule then
    return .block (← moduleDef layout limit)
  else
    return .member (← member layout limit)

end Forms

end Reader

/-- The kinds that begin an item. -/
def beginsItem : Kind → Bool
  | .kwDef | .kwModule | .kwStruct => true
  | _ => false

/-- Moves past a faulty item: at least one token on, then to the next that begins an item. -/
def Cursor.recover (c : Cursor) : Cursor := c.advance.skip fun kind => !beginsItem kind

/-- The items from a cursor on, and the faults met on the way; `none` if the step limit was too
small. -/
def readItems (layout : Layout) (limit : Nat) :
    (rounds : Nat) → List Item → Cursor → Option (List Item × List ParseError)
  | 0, _, _ => none
  | rounds + 1, items, c =>
      let c := c.skip Kind.isSeparator
      if c.current.isNone then
        some (items, c.errors)
      else
        match (Reader.item layout limit).run c with
        | .ok item c => readItems layout limit rounds (items ++ [item]) c
        | .error (.fault e) c =>
            readItems layout limit rounds items
              (Cursor.recover { c with errors := c.errors ++ [e] })
        | .error .exhausted _ => none

/-- Reads a whole text as a source file, with every fault in it; `none` if the step limit was too
small. -/
def readFile (source : List Char) : Option (SourceFile × List ParseError) :=
  let lexemes := Token.scan source
  let layout := Layout.ofText source
  let limit := lexemes.length + 1
  (readItems layout limit limit [] (Cursor.ofLexemes lexemes)).map fun (items, errors) =>
    ({ items, span := layout.lines.span 0 layout.size }, errors)

/-- Reads a source file and keeps what is sound in it. -/
def parseFile (source : List Char) : SourceFile × List ParseError :=
  (readFile source).getD ({ items := [], span := .synthetic }, [])

/-- Reads a source file that must have no fault. -/
def parse (source : List Char) : Except ParseError SourceFile :=
  match parseFile source with
  | (_, e :: _) => .error e
  | (file, []) => .ok file

end Surface
end Clausal
