import Clausal.Toml.Basic
import Clausal.Toml.Text
import Clausal.Toml.Number

/-!
# The notation of configuration documents

Comments, headers, keys, arrays and inline tables.  Every reader takes the text from its place on
and gives what it read and the rest.
-/

namespace Clausal
namespace Toml

/-! ## Between the values -/

def skipBlanks (cs : List Char) : List Char := cs.dropWhile isBlank

/-- A comment, up to the first control character, which should be the end of its line. -/
def skipComment : List Char → List Char
  | '#' :: cs => cs.dropWhile fun c => !isControl c
  | cs => cs

/-- The end of a line, or of the text. -/
def lineEnd? : List Char → Option (List Char)
  | [] => some []
  | cs => (lineBreak? cs).map (·.2)

/-- What may follow a header or an entry on its line. -/
def endEntry? (cs : List Char) : Option (List Char) := lineEnd? (skipComment (skipBlanks cs))

/-- Leaves out lines that hold blanks and comments only, at most `limit` of them. -/
def skipLinesWithin : (limit : Nat) → List Char → List Char
  | 0, cs => cs
  | limit + 1, cs =>
      match lineBreak? (skipComment (skipBlanks cs)) with
      | some (_, rest) => skipLinesWithin limit rest
      | none => skipComment (skipBlanks cs)

/-- Leaves out blanks, line ends and comments. -/
def skipLines (cs : List Char) : List Char := skipLinesWithin (cs.length + 1) cs

/-! ## Keys -/

def isBareKeyChar (c : Char) : Bool :=
  ('a' ≤ c && c ≤ 'z') || ('A' ≤ c && c ≤ 'Z') || ('0' ≤ c && c ≤ '9') || c == '_' || c == '-'

/-- One part of a key. -/
def simpleKey? : List Char → Option (String × List Char)
  | '"' :: cs => basicText (cs.length + 1) [] cs
  | '\'' :: cs => literalText [] cs
  | cs =>
      match cs.takeWhile isBareKeyChar with
      | [] => none
      | found => some (String.ofList found, cs.dropWhile isBareKeyChar)

/-- A key of at most `limit` parts between points, and the blanks around it. -/
def keyWithin? : (limit : Nat) → List Char → Option (List String × List Char)
  | 0, _ => none
  | limit + 1, cs => do
      let (part, rest) ← simpleKey? (skipBlanks cs)
      match skipBlanks rest with
      | '.' :: rest =>
          let (parts, rest) ← keyWithin? limit rest
          return (part :: parts, rest)
      | rest => return ([part], rest)

/-- How many parts a key may have, and how deep arrays and inline tables may nest. -/
def deepest : Nat := 80

def key? (cs : List Char) : Option (List String × List Char) := keyWithin? deepest cs

/-! ## Values -/

def isWordChar (c : Char) : Bool := isBareKeyChar c || c == '.' || c == '+' || c == ':'

/-- The characters of a value without quotes and brackets.  One space may stand between a date and
a time. -/
def takeWord (cs : List Char) : List Char × List Char :=
  let word := cs.takeWhile isWordChar
  match cs.dropWhile isWordChar with
  | ' ' :: c :: rest =>
      if afterDate? word == some [] && Decimal.isDigit c then
        (word ++ ' ' :: (c :: rest).takeWhile isWordChar, (c :: rest).dropWhile isWordChar)
      else
        (word, ' ' :: c :: rest)
  | rest => (word, rest)

/-- A text, a number, a date or a truth value. -/
def scalar? (cs : List Char) : Option (Value × List Char) :=
  if cs.head? == some '"' || cs.head? == some '\'' then
    (text? cs).map fun (s, rest) => (.text s, rest)
  else
    (word? (takeWord cs).1).map fun v => (v, (takeWord cs).2)

mutual

/-- A value, with at most `room` arrays and inline tables around any part of it. -/
def value : (limit room : Nat) → List Char → Option (Value × List Char)
  | 0, _, _ => none
  | _ + 1, 0, cs => if cs.head? == some '[' || cs.head? == some '\x7b' then none else scalar? cs
  | limit + 1, room + 1, cs =>
      match cs with
      | '[' :: rest => (items limit room [] rest).map fun (items, rest) => (.array items, rest)
      | '\x7b' :: rest =>
          (inlineEntries limit room [] rest).map fun (entries, rest) =>
            (.table (entriesValue entries), rest)
      | cs => scalar? cs

/-- The rest of an array. -/
def items : (limit room : Nat) → List Value → List Char → Option (List Value × List Char)
  | 0, _, _, _ => none
  | limit + 1, room, found, cs =>
      match skipLines cs with
      | ']' :: rest => some (found, rest)
      | rest =>
          match value limit room rest with
          | none => none
          | some (item, rest) =>
              match skipLines rest with
              | ',' :: rest => items limit room (found ++ [item]) rest
              | ']' :: rest => some (found ++ [item], rest)
              | _ => none

/-- The rest of an inline table. -/
def inlineEntries : (limit room : Nat) → Entries → List Char → Option (Entries × List Char)
  | 0, _, _, _ => none
  | limit + 1, room, found, cs =>
      match skipLines cs with
      | '\x7d' :: rest => some (found, rest)
      | rest =>
          match inlineEntry limit room found rest with
          | none => none
          | some (found, rest) =>
              match skipLines rest with
              | ',' :: rest => inlineEntries limit room found rest
              | '\x7d' :: rest => some (found, rest)
              | _ => none

/-- An entry of an inline table, added to those found before. -/
def inlineEntry : (limit room : Nat) → Entries → List Char → Option (Entries × List Char)
  | 0, _, _, _ => none
  | limit + 1, room, found, cs =>
      match key? cs with
      | none => none
      | some (key, rest) =>
          match skipLines rest with
          | '=' :: rest =>
              match value limit room (skipLines rest) with
              | none => none
              | some (v, rest) => (Entries.insert? key v found).map fun found => (found, rest)
          | _ => none

end

/-! ## Documents -/

/-- A header after its opening bracket, up to its closing one. -/
def header (cs : List Char) : Option (List String × List Char) :=
  match key? cs with
  | some (path, ']' :: rest) => some (path, rest)
  | _ => none

/-- A header after its two opening brackets, up to its two closing ones. -/
def elementHeader (cs : List Char) : Option (List String × List Char) :=
  match key? cs with
  | some (path, ']' :: ']' :: rest) => some (path, rest)
  | _ => none

/-- A key and its value on one line. -/
def entry (cs : List Char) : Option (List String × Value × List Char) :=
  match key? cs with
  | some (key, '=' :: rest) =>
      (value (2 * rest.length + 1) deepest (skipBlanks rest)).map fun (v, rest) => (key, v, rest)
  | _ => none

/-- The lines of a document; `path` is the table that the last header opened. -/
def documentFrom : (limit : Nat) → (path : List String) → Entries → List Char → Option Entries
  | 0, _, _, _ => none
  | limit + 1, path, entries, cs =>
      match skipLines cs with
      | [] => some entries
      | '[' :: '[' :: rest => do
          let (path, rest) ← elementHeader rest
          let rest ← endEntry? rest
          documentFrom limit path (← Entries.openElement? path entries) rest
      | '[' :: rest => do
          let (path, rest) ← header rest
          let rest ← endEntry? rest
          documentFrom limit path (← Entries.openTable? path entries) rest
      | rest => do
          let (key, v, rest) ← entry rest
          let rest ← endEntry? rest
          documentFrom limit path (← Entries.insertUnder? path key v entries) rest

/-- A byte order mark before a document is no part of it. -/
def dropByteOrderMark : List Char → List Char
  | '\uFEFF' :: cs => cs
  | cs => cs

/-- Reads a document; `none` if the text is not one. -/
def read? (text : String) : Option Value :=
  let cs := dropByteOrderMark text.toList
  (documentFrom (cs.length + 1) [] [] cs).map fun entries => .table (entriesValue entries)

end Toml
end Clausal
