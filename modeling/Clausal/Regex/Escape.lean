import Clausal.Regex.Basic
import Clausal.Regex.Flags
import Clausal.Text.Hex

/-!
# Escapes in regular expressions

A backslash and what follows it stand for one character, a set or a condition.
-/

namespace Clausal
namespace Regex

/-- What stands for one character, one set or one condition. -/
inductive Primitive where
  | literal (c : Char)
  | set (members : CharSet)
  | assertion (condition : Assertion)
  deriving Inhabited

/-- The next `count` characters. -/
def takeDigits (flags : Flags) : (count : Nat) → List Char → Option (List Char × List Char)
  | 0, cs => some ([], cs)
  | count + 1, cs =>
      match flags.skip cs with
      | [] => none
      | c :: cs => (takeDigits flags count cs).map fun (digits, rest) => (c :: digits, rest)

/-- The characters up to a closing brace. -/
def untilBrace (flags : Flags) (cs : List Char) : Option (List Char × List Char) :=
  let inside := cs.takeWhile (· != '\x7d')
  match cs.dropWhile (· != '\x7d') with
  | _ :: rest => some (if flags.verbose then inside.filter (!Text.isBlank ·) else inside, rest)
  | [] => none

/-- A code point: between braces, or `count` digits. -/
def hexEscape (flags : Flags) (count : Nat) (cs : List Char) : Option (Primitive × List Char) := do
  let (digits, rest) ← match flags.skip cs with
    | '\x7b' :: cs => untilBrace flags cs
    | cs => takeDigits flags count cs
  return (.literal (← Text.codePoint? digits), flags.skip rest)

def isAsciiChar (c : Char) : Bool := c.toNat < 128

/-- Two digits for a byte; without all scripts at hand they stand for ASCII characters only. -/
def byteEscape (flags : Flags) (cs : List Char) : Option (Primitive × List Char) :=
  match hexEscape flags 2 cs, flags.skip cs with
  | some (.literal c, rest), '\x7b' :: _ => some (.literal c, rest)
  | some (.literal c, rest), _ =>
      if flags.unicode || isAsciiChar c then some (.literal c, rest) else none
  | _, _ => none

def isLetterOrDash (c : Char) : Bool :=
  ('a' ≤ c && c ≤ 'z') || ('A' ≤ c && c ≤ 'Z') || c == '-'

/-- The kind of word boundary that a name between braces asks for. -/
def wordPlace? : String → Option WordPlace
  | "start" => some .start
  | "end" => some .finish
  | "start-half" => some .startHalf
  | "end-half" => some .finishHalf
  | _ => none

/-- What follows the escape for a word boundary: a name between braces, or a count of repetitions
that is read later. -/
def wordBoundary (flags : Flags) (cs : List Char) : Option (WordPlace × List Char) :=
  match cs with
  | '\x7b' :: rest =>
      match flags.skip rest with
      | [] => none
      | c :: _ =>
          if isLetterOrDash c then do
            let (name, rest) ← untilBrace flags rest
            return (← wordPlace? (String.ofList name), rest)
          else
            some (.boundary, cs)
  | cs => some (.boundary, cs)

def isLetterOrDigit (c : Char) : Bool :=
  ('a' ≤ c && c ≤ 'z') || ('A' ≤ c && c ≤ 'Z') || ('0' ≤ c && c ≤ '9')

/-- What a backslash and a character stand for.  Signs stand for themselves; of the letters only
some have a meaning. -/
def simpleEscape? (flags : Flags) : Char → Option Primitive
  | 'd' => some (.set flags.digit)
  | 'D' => some (.set (.complement flags.digit))
  | 'w' => some (.set flags.word)
  | 'W' => some (.set (.complement flags.word))
  | 's' => some (.set flags.blank)
  | 'S' => some (.set (.complement flags.blank))
  | 'n' => some (.literal '\n')
  | 't' => some (.literal '\t')
  | 'r' => some (.literal '\r')
  | 'f' => some (.literal '\x0c')
  | 'v' => some (.literal '\x0b')
  | 'a' => some (.literal '\x07')
  | 'A' => some (.assertion .textStart)
  | 'z' => some (.assertion .textFinish)
  | 'B' => some (.assertion (.word flags.word .noBoundary))
  | '<' => some (.assertion (.word flags.word .start))
  | '>' => some (.assertion (.word flags.word .finish))
  | c => if isLetterOrDigit c || !isAsciiChar c then none else some (.literal c)

/-- An escape after its backslash. -/
def escape (flags : Flags) : List Char → Option (Primitive × List Char)
  | [] => none
  | 'x' :: cs => byteEscape flags cs
  | 'u' :: cs => hexEscape flags 4 cs
  | 'U' :: cs => hexEscape flags 8 cs
  | 'b' :: cs =>
      (wordBoundary flags cs).map fun (kind, rest) => (.assertion (.word flags.word kind), rest)
  | c :: cs => (simpleEscape? flags c).map fun primitive => (primitive, cs)

end Regex
end Clausal
