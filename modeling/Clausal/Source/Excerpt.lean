import Clausal.Source.Span

/-!
# Source excerpts

An error report shows the line a span begins on and marks the span under it.  Widths are counted
in bytes, a mark is at least one sign wide and never passes the end of its line.
-/

namespace Clausal
namespace Source

/-- The text of a finished line whose characters were gathered in reverse; a carriage return at
its end belongs to the line ending. -/
def finishLine : List Char → List Char
  | '\r' :: cs => cs.reverse
  | cs => cs.reverse

/-- The lines of a text, the characters of the first one so far gathered in reverse. -/
def linesFrom (current : List Char) : List Char → List (List Char)
  | [] => if current.isEmpty then [] else [current.reverse]
  | c :: cs => if c = '\n' then finishLine current :: linesFrom [] cs else linesFrom (c :: current) cs

/-- The lines of a text.  Each newline ends a line, and nothing follows the last newline. -/
def lines (text : List Char) : List (List Char) := linesFrom [] text

/-- The line a span begins on. -/
def lineOf? (span : Span) (text : List Char) : Option (List Char) :=
  (lines text)[span.line - 1]?

/-- The two rows of an excerpt: the line behind its number, and the marks below. -/
def excerptRows (span : Span) (line : List Char) : String :=
  let size := byteLength line
  let column := min (span.column - 1) size
  let width := max 1 (min span.length (max 1 (size - column)))
  let gutter := toString span.line
  let blank := String.ofList (List.replicate gutter.length ' ')
  let indent := String.ofList (List.replicate column ' ')
  let marks := String.ofList (List.replicate width '^')
  "  " ++ gutter ++ " | " ++ String.ofList line ++ "\n  " ++ blank ++ " | " ++ indent ++ marks

/-- The excerpt for a span, when the text has the line it begins on. -/
def excerpt? (span : Span) (text : List Char) : Option String :=
  (lineOf? span text).map (excerptRows span)

end Source
end Clausal
