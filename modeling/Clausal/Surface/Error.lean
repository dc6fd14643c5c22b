import Clausal.Source.Excerpt

/-!
# Syntax errors

What can be wrong with a source text, how each fault is worded, and the report that shows the
faulty line.
-/

namespace Clausal

inductive ParseError where
  | unexpectedToken (found expected : String) (span : Span)
  | unexpectedEnd (expected : String) (span : Span)
  | invalidEscape (sequence : String) (span : Span)
  | unterminatedString (span : Span)
  | invalidNumber (literal : String) (span : Span)
  | invalidForm (message : String) (span : Span)
  | unknownCharacter (span : Span)
  deriving DecidableEq, Repr, Inhabited

namespace ParseError

def span : ParseError → Span
  | unexpectedToken _ _ s => s
  | unexpectedEnd _ s => s
  | invalidEscape _ s => s
  | unterminatedString s => s
  | invalidNumber _ s => s
  | invalidForm _ s => s
  | unknownCharacter s => s

def message : ParseError → String
  | unexpectedToken found expected s =>
      "unexpected token '" ++ found ++ "' at " ++ s.render ++ ", expected " ++ expected
  | unexpectedEnd expected s =>
      "unexpected end of input at " ++ s.render ++ ", expected " ++ expected
  | invalidEscape sequence s => "invalid escape sequence '" ++ sequence ++ "' at " ++ s.render
  | unterminatedString s => "unterminated string literal starting at " ++ s.render
  | invalidNumber literal s => "invalid number literal '" ++ literal ++ "' at " ++ s.render
  | invalidForm what s => what ++ " at " ++ s.render
  | unknownCharacter s => "unrecognized token at " ++ s.render

/-- The faulty line with the fault marked, or nothing when the text has no such line. -/
def context (e : ParseError) (source : List Char) : String :=
  (Source.excerpt? e.span source).getD ""

/-- All faults of a text, each with its excerpt. -/
def report (errors : List ParseError) (source : List Char) : String :=
  "\n\n".intercalate (errors.map fun e => "error: " ++ e.message ++ "\n" ++ e.context source)

end ParseError

end Clausal
