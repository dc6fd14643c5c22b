import Clausal.Text.Hex

/-!
# Texts in configuration documents

A text stands between double quotes, with escapes, or between single quotes, without; three quotes
instead of one open a text of several lines.
-/

namespace Clausal
namespace Toml

def isControl (c : Char) : Bool := (c.toNat < 32 && c != '\t') || c.toNat == 127

def isBlank (c : Char) : Bool := c == ' ' || c == '\t'

/-! ## Escapes -/

/-- The character that the first `count` characters name by its code point, and what follows. -/
def takeCodePoint? (count : Nat) (cs : List Char) : Option (Char × List Char) :=
  if (cs.take count).length = count then
    (Text.codePoint? (cs.take count)).map fun c => (c, cs.drop count)
  else
    none

/-- The character that a backslash and a letter stand for. -/
def simpleEscape? : Char → Option Char
  | 'b' => some '\x08'
  | 't' => some '\t'
  | 'n' => some '\n'
  | 'f' => some '\x0c'
  | 'r' => some '\r'
  | 'e' => some '\x1b'
  | '"' => some '"'
  | '\\' => some '\\'
  | _ => none

/-- The character that an escape stands for, after its backslash. -/
def escape? : List Char → Option (Char × List Char)
  | 'x' :: cs => takeCodePoint? 2 cs
  | 'u' :: cs => takeCodePoint? 4 cs
  | 'U' :: cs => takeCodePoint? 8 cs
  | c :: cs => (simpleEscape? c).map fun found => (found, cs)
  | [] => none

/-! ## Texts on one line -/

/-- The rest of a text between double quotes; `found` holds what was read, the last character
first. -/
def basicText : (limit : Nat) → (found : List Char) → List Char → Option (String × List Char)
  | 0, _, _ => none
  | _ + 1, _, [] => none
  | limit + 1, found, c :: cs =>
      if c == '"' then some (String.ofList found.reverse, cs)
      else if c == '\\' then
        match escape? cs with
        | some (c, cs) => basicText limit (c :: found) cs
        | none => none
      else if isControl c then none
      else basicText limit (c :: found) cs

/-- The rest of a text between single quotes. -/
def literalText : (found : List Char) → List Char → Option (String × List Char)
  | _, [] => none
  | found, c :: cs =>
      if c == '\'' then some (String.ofList found.reverse, cs)
      else if isControl c then none
      else literalText (c :: found) cs

/-! ## Texts of several lines -/

/-- The line end that a text begins with, and what follows it. -/
def lineBreak? : List Char → Option (List Char × List Char)
  | '\n' :: cs => some (['\n'], cs)
  | '\r' :: '\n' :: cs => some (['\r', '\n'], cs)
  | _ => none

/-- A line end right after the opening quotes is no part of the text. -/
def dropLineBreak (cs : List Char) : List Char := (lineBreak? cs).elim cs (·.2)

def isSpaceOrBreak (c : Char) : Bool := isBlank c || c == '\n' || c == '\r'

/-- Whether a backslash before this text stands at the end of its line. -/
def endsLine (cs : List Char) : Bool := (lineBreak? (cs.dropWhile isBlank)).isSome

/-- Whether no carriage return stands alone. -/
def hasNoLoneReturn : List Char → Bool
  | '\r' :: '\n' :: cs => hasNoLoneReturn cs
  | '\r' :: _ => false
  | _ :: cs => hasNoLoneReturn cs
  | [] => true

/-- What a row of quotes in a text of several lines means: quotes of the text, or its end with up
to two quotes before it. -/
def closingQuotes? (quote : Char) (count : Nat) : Option (List Char × Bool) :=
  if count < 3 then some (List.replicate count quote, false)
  else if count ≤ 5 then some (List.replicate (count - 3) quote, true)
  else none

/-- The rest of a text of several lines between the given quotes, with or without escapes. -/
def longText (quote : Char) (escapes : Bool) :
    (limit : Nat) → (found : List Char) → List Char → Option (String × List Char)
  | 0, _, _ => none
  | _ + 1, _, [] => none
  | limit + 1, found, c :: cs =>
      if c == quote then
        let row := (c :: cs).takeWhile (· == quote)
        let rest := (c :: cs).dropWhile (· == quote)
        match closingQuotes? quote row.length with
        | some (quotes, true) => some (String.ofList (quotes ++ found).reverse, rest)
        | some (quotes, false) => longText quote escapes limit (quotes ++ found) rest
        | none => none
      else if escapes && c == '\\' then
        if endsLine cs then
          let spaces := cs.takeWhile isSpaceOrBreak
          if hasNoLoneReturn spaces then
            longText quote escapes limit found (cs.dropWhile isSpaceOrBreak)
          else
            none
        else
          match escape? cs with
          | some (c, cs) => longText quote escapes limit (c :: found) cs
          | none => none
      else
        match lineBreak? (c :: cs) with
        | some (characters, rest) =>
            longText quote escapes limit (characters.reverse ++ found) rest
        | none => if isControl c then none else longText quote escapes limit (c :: found) cs

/-- A text, with its opening quotes; `none` if there is none or it does not end. -/
def text? : List Char → Option (String × List Char)
  | '"' :: '"' :: '"' :: cs => longText '"' true (cs.length + 1) [] (dropLineBreak cs)
  | '\'' :: '\'' :: '\'' :: cs => longText '\'' false (cs.length + 1) [] (dropLineBreak cs)
  | '"' :: cs => basicText (cs.length + 1) [] cs
  | '\'' :: cs => literalText [] cs
  | _ => none

end Toml
end Clausal
