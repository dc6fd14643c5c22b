import Clausal.Surface.Cursor
import Clausal.Surface.Tree
import Clausal.Decimal.Read

/-!
# Reading expressions

Infix operators are read by their binding strength: an operand is followed by every operator that
binds at least as tightly as the caller asks.  Calls, indices and fields bind to the expression
before them at any level.

The readers of the single forms take the reader of nested expressions as the argument `sub`;
`expressionAt` ties the knot.  Every nested expression comes after at least one token of its own
form, and every round of a loop takes at least one, so a step limit above the number of tokens is
never reached.
-/

namespace Clausal
namespace Surface

open Token (Kind)

namespace Reader

section Forms

variable (layout : Layout) (limit : Nat) (sub : Precedence → Reader Expr)

/-! ## Delimited forms -/

/-- Expressions between commas up to `close`, which is not taken. -/
def commaList (close : Kind) : (limit : Nat) → List Expr → Reader (List Expr)
  | 0, _ => exhausted
  | limit + 1, items => do
      skipNewlines
      if ← sees close then
        return items
      let item ← sub .lowest
      skipNewlines
      if ← sees .comma then
        advance
        commaList close limit (items ++ [item])
      else
        return items ++ [item]

def paren : Reader Expr := do
  let start := (← expect layout .leftParen).span.start
  let items ← commaList sub .rightParen limit []
  let _ ← expect layout .rightParen
  return .paren (← spanFrom layout start) items

def tuple : Reader Expr := do
  let start := (← expect layout .leftBrace).span.start
  let items ← commaList sub .rightBrace limit []
  let _ ← expect layout .rightBrace
  return .tuple (← spanFrom layout start) items

/-- The elements of a list up to its closing bracket, and the tail after a bar if there is one. -/
def listItems : (limit : Nat) → List Expr → Reader (List Expr × Option Expr)
  | 0, _ => exhausted
  | limit + 1, items => do
      skipNewlines
      if ← sees .rightBracket then
        return (items, none)
      let item ← sub .lowest
      skipNewlines
      if ← sees .pipe then
        advance
        skipNewlines
        let tail ← sub .lowest
        skipNewlines
        return (items ++ [item], some tail)
      else if ← sees .comma then
        advance
        listItems limit (items ++ [item])
      else
        return (items ++ [item], none)

def list : Reader Expr := do
  let start := (← expect layout .leftBracket).span.start
  let (items, tail) ← listItems sub limit []
  let _ ← expect layout .rightBracket
  let span ← spanFrom layout start
  match tail with
  | some tail => return .listTail span items tail
  | none => return .list span items

/-- `key: value`, where the key is an atom, or `key => value`. -/
def mapEntry : Reader (Expr × Expr) := do
  let cursor ← get
  if cursor.sees .identifier && cursor.nextKind? == some .colon then
    let key ← name layout "map key"
    let _ ← expect layout .colon
    skipNewlines
    let value ← sub .lowest
    return (.atom key.span key.text, value)
  else
    let key ← sub .or
    skipNewlines
    let _ ← expect layout .fatArrow
    skipNewlines
    let value ← sub .lowest
    return (key, value)

def mapEntries : (limit : Nat) → List (Expr × Expr) → Reader (List (Expr × Expr))
  | 0, _ => exhausted
  | limit + 1, entries => do
      skipNewlines
      if ← sees .rightBrace then
        return entries
      let entry ← mapEntry layout sub
      skipNewlines
      if ← sees .comma then
        advance
        mapEntries limit (entries ++ [entry])
      else
        return entries ++ [entry]

def map : Reader Expr := do
  let start := (← expect layout .percentBrace).span.start
  let entries ← mapEntries layout sub limit []
  let _ ← expect layout .rightBrace
  return .map (← spanFrom layout start) entries

/-! ## Blocks -/

/-- A binding or an expression. -/
def statement : Reader Stmt := do
  if ← sees .kwLet then
    let start := (← expect layout .kwLet).span.start
    let target ← name layout "binding name"
    let _ ← expect layout .equals
    skipNewlines
    let value ← sub .lowest
    return .bind (← spanFrom layout start) target.text value
  else
    return .expr (← sub .lowest)

/-- The entries of a block up to its closing brace; each ends at a separator or the brace. -/
def statements : (limit : Nat) → List Stmt → Reader (List Stmt)
  | 0, _ => exhausted
  | limit + 1, stmts => do
      skipSeparators
      if (← sees .rightBrace) || (← get).current.isNone then
        return stmts
      let stmt ← statement layout sub
      if (← sees .rightBrace) || (← get).seesAny Kind.isSeparator then
        statements limit (stmts ++ [stmt])
      else
        unexpected layout "newline, ';' or '\x7d'"

def block : Reader (List Stmt) := do
  let _ ← expect layout .leftBrace
  let stmts ← statements layout sub limit []
  let _ ← expect layout .rightBrace
  return stmts

/-- `if` with its branches; an `else if` is an `else` block of one entry. -/
def cond : (rounds : Nat) → Reader Expr
  | 0 => exhausted
  | rounds + 1 => do
      let start := (← expect layout .kwIf).span.start
      let condition ← sub .or
      let thenBlock ← block layout limit sub
      let elseBlock ←
        if ← sees .kwElse then do
          advance
          if ← sees .kwIf then
            pure [.expr (← cond rounds)]
          else
            block layout limit sub
        else
          pure []
      return .cond (← spanFrom layout start) condition thenBlock elseBlock

/-! ## Primary expressions -/

/-- The largest value of an integer literal. -/
def maxInteger : Nat := 9223372036854775807

/-- Reads an integer literal, underscores removed. -/
def integerValue? (text : String) : Option Nat :=
  let value := Decimal.natOfDigits (text.toList.filter (· != '_'))
  if value ≤ maxInteger then some value else none

/-- The expression that a literal or a name stands for. -/
def leaf? (token : Token) : Option (Except ParseError Expr) :=
  match token.kind with
  | .integer =>
      some <| match integerValue? token.text with
        | some n => .ok (.integer token.span n)
        | none => .error (.invalidNumber token.text token.span)
  | .float =>
      some <| match Decimal.readFloat? (token.text.toList.filter (· != '_')) with
        | some x => .ok (.float token.span x)
        | none => .error (.invalidNumber token.text token.span)
  | .quoted =>
      some <| match Token.unescape token.text with
        | .ok s => .ok (.text token.span s)
        | .error sequence => .error (.invalidEscape sequence token.span)
  | .atom => some (.ok (.atom token.span (String.ofList (token.text.toList.drop 1))))
  | .kwTrue => some (.ok (.bool token.span true))
  | .kwFalse => some (.ok (.bool token.span false))
  | .kwNil => some (.ok (.nil token.span))
  | .identifier => some (.ok (.ident token.span token.text))
  | _ => none

/-- A literal, a name or a delimited form. -/
def primary : Reader Expr := do
  match (← get).current with
  | none => unexpected layout "expression"
  | some token =>
      match leaf? token with
      | some result => do
          advance
          match result with
          | .ok e => return e
          | .error e => fail e
      | none =>
          match token.kind with
          | .leftParen => paren layout limit sub
          | .leftBracket => list layout limit sub
          | .leftBrace => tuple layout limit sub
          | .percentBrace => map layout limit sub
          | .kwIf => cond layout limit sub limit
          | _ => unexpected layout "expression"

/-- A minus sign is folded into a number after it. -/
def negated (span : Span) : Expr → Expr
  | .integer _ n => .integer span (-n)
  | .float _ x => .float span (-x)
  | e => .unary span .neg e

/-- An expression without infix operators, with the signs and negations before it. -/
def operand : Reader Expr := do
  let start := (← currentSpan layout).start
  if ← sees .minus then
    advance
    let e ← sub .unary
    return negated (← spanFrom layout start) e
  else if ← sees .kwNot then
    advance
    let e ← sub .unary
    return .unary (← spanFrom layout start) .not e
  else
    primary layout limit sub

/-! ## Operators -/

def callOf (callee : Expr) : Reader Expr := do
  let _ ← expect layout .leftParen
  let args ← commaList sub .rightParen limit []
  let _ ← expect layout .rightParen
  return .call (← spanFrom layout callee.span.start) callee args

def indexOf (target : Expr) : Reader Expr := do
  let _ ← expect layout .leftBracket
  let args ← commaList sub .rightBracket limit []
  let _ ← expect layout .rightBracket
  return .index (← spanFrom layout target.span.start) target args

def fieldOf (target : Expr) : Reader Expr := do
  let _ ← expect layout .dot
  let field ← name layout "field name"
  return .field (← spanFrom layout target.span.start) target field.text

/-- The operator that a token between two operands stands for. -/
def binaryOp : Kind → BinaryOp
  | .plus => .strict .add
  | .minus => .strict .sub
  | .star => .strict .mul
  | .slash => .strict .div
  | .equalEqual => .strict .equal
  | .notEqual => .strict .notEqual
  | .less => .strict .less
  | .lessEqual => .strict .lessEqual
  | .greater => .strict .greater
  | .greaterEqual => .strict .greaterEqual
  | .kwAnd => .and
  | .kwOr => .or
  | _ => .strict .concat

/-- Joins two operands. -/
def combine (kind : Kind) (left right : Expr) : Expr :=
  let span := left.span.join right.span
  match kind with
  | .arrow => .clause span left right
  | .kwWhen => .guarded span left right
  | .defaultArrow => .defaulted span left right
  | kind => .binary span (binaryOp kind) left right

/-- Everything that continues the expression `left`: calls, indices, fields, and operators that
bind at least as tightly as `least`.  An operator may end its line. -/
def continuation (least : Precedence) : (limit : Nat) → Expr → Reader Expr
  | 0, _ => exhausted
  | rounds + 1, left => do
      match (← get).kind? with
      | none => return left
      | some .leftParen => continuation least rounds (← callOf layout limit sub left)
      | some .leftBracket => continuation least rounds (← indexOf layout limit sub left)
      | some .dot => continuation least rounds (← fieldOf layout left)
      | some kind =>
          match kind.operator? with
          | none => return left
          | some (level, assoc) =>
              if level.level < least.level then
                return left
              else
                advance
                skipNewlines
                let right ← sub (assoc.rightOperand level)
                continuation least rounds (combine kind left right)

/-- An operand and what continues it. -/
def expressionWith (least : Precedence) : Reader Expr := do
  let left ← operand layout limit sub
  continuation layout limit sub least limit left

end Forms

/-- An expression whose operators bind at least as tightly as `least`, nested less than `limit`
deep. -/
def expressionAt (layout : Layout) : (limit : Nat) → (least : Precedence) → Reader Expr
  | 0, _ => exhausted
  | limit + 1, least => expressionWith layout (limit + 1) (expressionAt layout limit) least

end Reader

/-- Reads a whole text as one expression; `none` if the step limit was too small. -/
def readExpression (source : List Char) : Option (Except ParseError Expr) :=
  let lexemes := Token.scan source
  let layout := Layout.ofText source
  let read : Reader Expr := do
    Reader.skipNewlines
    let e ← Reader.expressionAt layout (lexemes.length + 1) .lowest
    Reader.skipSeparators
    match (← get).current with
    | some token => Reader.fail (.unexpectedToken token.text "end of input" token.span)
    | none =>
        match (← get).errors with
        | first :: _ => Reader.fail first
        | [] => return e
  match read.run (Cursor.ofLexemes lexemes) with
  | .ok e _ => some (.ok e)
  | .error (.fault e) _ => some (.error e)
  | .error .exhausted _ => none

/-- Reads a whole text as one expression. -/
def parseExpression (source : List Char) : Except ParseError Expr :=
  (readExpression source).getD (.error default)

end Surface
end Clausal
