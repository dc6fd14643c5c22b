/-!
# Source positions

A source text is read as a list of characters, and positions in it are byte offsets of its UTF-8
form.  This file defines:

* `Source.byteLength` and `Source.slice?`, the size of a text and the part of it between two
  byte offsets that both stand on character boundaries;
* `LineTable`, the offsets at which the lines of a text begin, with `LineTable.position`, the
  line and column of an offset (both counted from one, columns in bytes);
* `Span`, a range of offsets that remembers the line and column of its first byte.
-/

namespace Clausal

namespace Source

/-- Size of a text in bytes of its UTF-8 form. -/
def byteLength : List Char → Nat
  | [] => 0
  | c :: cs => c.utf8Size + byteLength cs

/-- What remains of a text after exactly `n` bytes, if a character ends there. -/
def dropBytes? : Nat → List Char → Option (List Char)
  | 0, cs => some cs
  | _ + 1, [] => none
  | n + 1, c :: cs =>
      if c.utf8Size ≤ n + 1 then dropBytes? (n + 1 - c.utf8Size) cs else none

/-- The first `n` bytes of a text, if a character ends there. -/
def takeBytes? : Nat → List Char → Option (List Char)
  | 0, _ => some []
  | _ + 1, [] => none
  | n + 1, c :: cs =>
      if c.utf8Size ≤ n + 1 then (takeBytes? (n + 1 - c.utf8Size) cs).map (c :: ·) else none

/-- The characters between two byte offsets; `none` when the offsets are out of order, out of
range or inside a character. -/
def slice? (text : List Char) (start stop : Nat) : Option (List Char) :=
  if start ≤ stop then
    (dropBytes? start text).bind (takeBytes? (stop - start))
  else
    none

/-- The size of a text is the sum of the sizes of its parts. -/
theorem byteLength_append (a b : List Char) :
    byteLength (a ++ b) = byteLength a + byteLength b := by
  induction a with
  | nil => simp [byteLength]
  | cons c cs ih => simp [byteLength, ih, Nat.add_assoc]

/-- A character takes at least one byte. -/
theorem length_le_byteLength (text : List Char) : text.length ≤ byteLength text := by
  induction text with
  | nil => exact Nat.le_refl 0
  | cons c cs ih =>
      have positive := c.utf8Size_pos
      simp only [byteLength, List.length_cons]
      omega

end Source

/-- A range of byte offsets together with the line and column of its start.  The span with line
`0` belongs to no source text. -/
structure Span where
  start : Nat
  stop : Nat
  line : Nat
  column : Nat
  deriving DecidableEq, Repr, Inhabited

namespace Span

/-- The span of things that were not written in any source text. -/
def synthetic : Span := ⟨0, 0, 0, 0⟩

def isSynthetic (s : Span) : Bool := s.line == 0

/-- The smallest span that covers both; it begins where the earlier one begins. -/
def join (s t : Span) : Span :=
  let first := if s.start ≤ t.start then s else t
  { start := first.start, stop := max s.stop t.stop, line := first.line, column := first.column }

/-- The characters a span covers, none of them when it does not fit the text. -/
def text (s : Span) (source : List Char) : List Char :=
  (Source.slice? source s.start s.stop).getD []

def length (s : Span) : Nat := s.stop - s.start

def isEmpty (s : Span) : Bool := s.stop ≤ s.start

/-- A span is written as the line and column of its start. -/
def render (s : Span) : String := s!"{s.line}:{s.column}"

end Span

/-- Byte offsets at which the lines of a text begin, in ascending order. -/
structure LineTable where
  starts : List Nat
  deriving Repr, Inhabited

namespace LineTable

/-- The offsets just after each newline of a text that itself begins at `offset`. -/
def startsAfter (offset : Nat) : List Char → List Nat
  | [] => []
  | c :: cs =>
      let next := offset + c.utf8Size
      if c = '\n' then next :: startsAfter next cs else startsAfter next cs

/-- The table of a whole text; its first line begins at offset `0`. -/
def ofText (source : List Char) : LineTable := ⟨0 :: startsAfter 0 source⟩

/-- Line and column of an offset: the line is the last one that begins at or before it. -/
def position (table : LineTable) (offset : Nat) : Nat × Nat :=
  let begun := table.starts.takeWhile (· ≤ offset)
  (begun.length, offset - begun.getLastD 0 + 1)

/-- The span between two offsets. -/
def span (table : LineTable) (start stop : Nat) : Span :=
  let (line, column) := table.position start
  ⟨start, stop, line, column⟩

def lineCount (table : LineTable) : Nat := table.starts.length

end LineTable

end Clausal
