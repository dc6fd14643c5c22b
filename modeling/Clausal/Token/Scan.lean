import Clausal.Token.Rule
import Clausal.Token.Quoted
import Clausal.Surface.Error

/-!
# Cutting a text into tokens

`Token.scan` reads a source text from left to right.  At each position it skips a blank, takes
the longest match of the token rules, or reports the one character no rule accepts.  A quoted
text that is not closed is reported and ends the scan.  Comments and newlines are tokens.
-/

namespace Clausal
namespace Token

/-- A token, or the fault found where a token should begin. -/
abbrev Lexeme := Except ParseError Token

/-- What stands at the start of a text that is not empty. -/
inductive Found where
  | blank
  /-- A token of the first character and `more` characters after it. -/
  | token (kind : Kind) (more : Nat)
  /-- A quote that is not closed, up to `bytes` bytes after it. -/
  | unclosed (bytes : Nat)
  | nothing
  deriving DecidableEq, Repr, Inhabited

/-- Decides what the character `c`, followed by `cs`, begins. -/
def find (c : Char) (cs : List Char) : Found :=
  if isBlank c then .blank
  else
    match longest? (c :: cs) with
    | none => .nothing
    | some (.quoted, _) =>
        match closing cs with
        | .found count => .token .quoted count
        | .missing bytes => .unclosed bytes
    | some (kind, length) => .token kind (length - 1)

/-- Scans a text that begins at byte `offset`, the first `skip` characters of which belong to the
lexeme before. -/
def scanFrom (lines : LineTable) : (skip offset : Nat) → List Char → List Lexeme
  | _, _, [] => []
  | skip + 1, offset, c :: cs => scanFrom lines skip (offset + c.utf8Size) cs
  | 0, offset, c :: cs =>
      let next := offset + c.utf8Size
      match find c cs with
      | .blank => scanFrom lines 0 next cs
      | .token kind more =>
          let tail := cs.take more
          let span := lines.span offset (next + Source.byteLength tail)
          .ok ⟨kind, String.ofList (c :: tail), span⟩ :: scanFrom lines more next cs
      | .unclosed bytes => [.error (.unterminatedString (lines.span offset (next + bytes)))]
      | .nothing => .error (.unknownCharacter (lines.span offset next)) :: scanFrom lines 0 next cs

/-- All lexemes of a source text. -/
def scan (source : List Char) : List Lexeme := scanFrom (LineTable.ofText source) 0 0 source

end Token
end Clausal
