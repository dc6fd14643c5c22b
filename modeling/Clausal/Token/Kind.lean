import Clausal.Source.Span
import Clausal.Token.Precedence

/-!
# Tokens

The kinds of token, the words and signs that spell the fixed ones, their classes, and the binding
strength of those that are infix operators.
-/

namespace Clausal
namespace Token

inductive Kind where
  | kwModule
  | kwStruct
  | kwDef
  | kwWhen
  | kwWhere
  | kwLet
  | kwIf
  | kwElse
  | kwAnd
  | kwOr
  | kwNot
  | kwTrue
  | kwFalse
  | kwNil
  | leftParen
  | rightParen
  | leftBracket
  | rightBracket
  | leftBrace
  | rightBrace
  | percentBrace
  | comma
  | semicolon
  | colon
  | dot
  | arrow
  | fatArrow
  | defaultArrow
  | equals
  | equalEqual
  | notEqual
  | less
  | lessEqual
  | greater
  | greaterEqual
  | concat
  | plus
  | minus
  | star
  | slash
  | pipe
  | newline
  | comment
  | integer
  | float
  | quoted
  | atom
  | identifier
  deriving DecidableEq, Repr, Inhabited

namespace Kind

/-- The kinds that have one spelling each, and that spelling. -/
def spellings : List (Kind × String) :=
  [(kwModule, "module"), (kwStruct, "struct"), (kwDef, "def"), (kwWhen, "when"),
   (kwWhere, "where"), (kwLet, "let"), (kwIf, "if"), (kwElse, "else"), (kwAnd, "and"),
   (kwOr, "or"), (kwNot, "not"), (kwTrue, "true"), (kwFalse, "false"), (kwNil, "nil"),
   (leftParen, "("), (rightParen, ")"), (leftBracket, "["), (rightBracket, "]"),
   (leftBrace, "\x7b"), (rightBrace, "\x7d"), (percentBrace, "%\x7b"), (comma, ","),
   (semicolon, ";"), (colon, ":"), (dot, "."), (arrow, "->"), (fatArrow, "=>"),
   (defaultArrow, "\\\\"), (equals, "="), (equalEqual, "=="), (notEqual, "!="), (less, "<"),
   (lessEqual, "<="), (greater, ">"), (greaterEqual, ">="), (concat, "<>"), (plus, "+"),
   (minus, "-"), (star, "*"), (slash, "/"), (pipe, "|")]

def isKeyword : Kind → Bool
  | kwModule | kwStruct | kwDef | kwWhen | kwWhere | kwLet | kwIf | kwElse | kwAnd | kwOr
  | kwNot | kwTrue | kwFalse | kwNil => true
  | _ => false

def isLiteral : Kind → Bool
  | integer | float | quoted | atom | kwTrue | kwFalse | kwNil => true
  | _ => false

/-- Separators end an entry of a block. -/
def isSeparator : Kind → Bool
  | newline | semicolon => true
  | _ => false

/-- How an error message names a kind that was expected. -/
def describe : Kind → String
  | leftParen => "'('"
  | rightParen => "')'"
  | leftBracket => "'['"
  | rightBracket => "']'"
  | leftBrace => "'\x7b'"
  | rightBrace => "'\x7d'"
  | percentBrace => "'%\x7b'"
  | comma => "','"
  | colon => "':'"
  | arrow => "'->'"
  | fatArrow => "'=>'"
  | equals => "'='"
  | identifier => "identifier"
  | newline => "newline"
  | _ => "token"

/-- Level and associativity of the infix operators. -/
def operator? : Kind → Option (Precedence × Associativity)
  | arrow => some (.clause, .right)
  | kwWhen => some (.when, .left)
  | defaultArrow => some (.default, .right)
  | kwOr => some (.or, .left)
  | kwAnd => some (.and, .left)
  | equalEqual | notEqual | less | lessEqual | greater | greaterEqual => some (.comparison, .left)
  | concat => some (.concat, .right)
  | plus | minus => some (.plus, .left)
  | star | slash => some (.times, .left)
  | _ => none

end Kind

end Token

/-- A token of a source text: its kind, the characters that spell it and where they stand. -/
structure Token where
  kind : Token.Kind
  text : String
  span : Span
  deriving Repr, Inhabited

end Clausal
