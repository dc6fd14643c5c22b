import Clausal.Token.Kind

/-!
# Quoted texts

`closing` finds the end of a quoted text: the first quote that no unpaired backslash precedes,
on the same line unless a backslash stands before the newline.  `unescape` gives the text that a
literal stands for.
-/

namespace Clausal
namespace Token

/-- Where the search for a closing quote ends. -/
inductive Closing where
  /-- The closing quote is the last of this many characters after the opening quote. -/
  | found (count : Nat)
  /-- There is none; the search stopped this many bytes after the opening quote. -/
  | missing (bytes : Nat)
  deriving DecidableEq, Repr, Inhabited

/-- Scans the body of a quoted text, `count` characters and `bytes` bytes of which were read.
`settled` is the offset of the second byte after the last backslash that began an escape: it is
where the search stops when the text runs out. -/
def closingFrom (count bytes settled : Nat) : List Char → Closing
  | [] => .missing settled
  | '"' :: _ => .found (count + 1)
  | '\n' :: _ => .missing bytes
  | '\\' :: [] => .missing bytes
  | '\\' :: c :: cs => closingFrom (count + 2) (bytes + 1 + c.utf8Size) (bytes + 2) cs
  | c :: cs => closingFrom (count + 1) (bytes + c.utf8Size) settled cs

/-- The end of the quoted text whose characters after the opening quote begin `body`. -/
def closing (body : List Char) : Closing := closingFrom 0 0 0 body

/-- The character that a backslash and `c` stand for. -/
def escaped? : Char → Option Char
  | 'n' => some '\n'
  | 't' => some '\t'
  | 'r' => some '\r'
  | '0' => some '\x00'
  | '\\' => some '\\'
  | '"' => some '"'
  | _ => none

/-- Replaces the escapes of a body; an unknown escape is returned as it was written. -/
def unescapeBody : List Char → Except String (List Char)
  | [] => .ok []
  | '\\' :: [] => .error "\\"
  | '\\' :: c :: cs =>
      match escaped? c with
      | some d => (unescapeBody cs).map (d :: ·)
      | none => .error (String.ofList ['\\', c])
  | c :: cs => (unescapeBody cs).map (c :: ·)

/-- The body of a literal: what stands between its quotes, or all of it when it lacks them. -/
def literalBody (text : List Char) : List Char :=
  match text with
  | '"' :: rest =>
      match rest.getLast? with
      | some '"' => rest.dropLast
      | _ => text
  | _ => text

/-- The text that a literal stands for, or its first unknown escape. -/
def unescape (text : String) : Except String String :=
  (unescapeBody (literalBody text.toList)).map String.ofList

end Token
end Clausal
