import Clausal.Json.Basic
import Clausal.Decimal.Read
import Clausal.Text.Hex

/-!
# Reading JSON texts

`Json.read?` gives the value of a text.  A number without fraction and exponent is an integer if it
has 64 bits; any other number is a float.  Every reader takes the text from its place on and gives
what it read and the rest.
-/

namespace Clausal
namespace Json

/-! ## Numbers -/

/-- Adds digits to a number for as long as it fits into 64 bits, and gives those left over. -/
def takeDigits : (found : Nat) → List Char → Nat × List Char
  | found, [] => (found, [])
  | found, c :: cs =>
      let next := found * 10 + Decimal.digitValue c
      if next < 18446744073709551616 then takeDigits next cs else (found, c :: cs)

def powerOfTen (exponent : Nat) : Float := Float.ofScientific 1 false exponent

/-- A whole number times a power of ten, which must not be too large for a double.  The whole
number is rounded first, and its product or quotient once more. -/
def scale? (significand : Nat) (exponent : Int) : Option Float :=
  let x := Float.ofNat significand
  if significand = 0 then some 0.0
  else if 308 < exponent then none
  else if 0 ≤ exponent then
    let y := x * powerOfTen exponent.toNat
    if Decimal.isFinite y then some y else none
  else if -308 ≤ exponent then some (x / powerOfTen exponent.natAbs)
  else if -616 ≤ exponent then some (x / powerOfTen 308 / powerOfTen (exponent.natAbs - 308))
  else some 0.0

/-- The fraction of a number: its digits, if a point stands there, and the rest. -/
def fraction? : List Char → Option (List Char × List Char)
  | '.' :: cs =>
      match cs.takeWhile Decimal.isDigit with
      | [] => none
      | digits => some (digits, cs.dropWhile Decimal.isDigit)
  | cs => some ([], cs)

/-- The exponent of a number, if it has one, and the rest. -/
def exponent? : List Char → Option (Option Int × List Char)
  | mark :: cs =>
      if mark == 'e' || mark == 'E' then
        let (negative, cs) := Decimal.readSign cs
        (Decimal.readNat? (cs.takeWhile Decimal.isDigit)).map fun n =>
          (some (if negative then -(n : Int) else n), cs.dropWhile Decimal.isDigit)
      else
        some (none, mark :: cs)
  | [] => some (none, [])

/-- A number without fraction and exponent.  Zero has a sign only as a float. -/
def wholeNumber (negative : Bool) (n : Nat) : Json :=
  if !negative then int n
  else if n = 0 || 9223372036854775808 < n then float (-(Float.ofNat n))
  else int (-(n : Int))

/-- A number. -/
def number? (cs : List Char) : Option (Json × List Char) := do
  let (negative, cs) := match cs with
    | '-' :: cs => (true, cs)
    | cs => (false, cs)
  let whole := cs.takeWhile Decimal.isDigit
  if !Decimal.isPlain whole then none
  else
    let (fraction, rest) ← fraction? (cs.dropWhile Decimal.isDigit)
    let (exponent, rest) ← exponent? rest
    let (significand, large) := takeDigits 0 whole
    if fraction.isEmpty && exponent.isNone && large.isEmpty then
      return (wholeNumber negative significand, rest)
    else
      let (significand, small) := takeDigits significand fraction
      let shift : Int := large.length - (fraction.length - small.length : Nat)
      let x ← scale? significand (shift + exponent.getD 0)
      return (float (if negative then -x else x), rest)

/-! ## Texts -/

/-- The place in a text: between characters, after a backslash, or among the four digits of a
code. -/
inductive TextPlace where
  | plain
  | escape
  | code (missing : Nat) (digits : List Char)
  deriving DecidableEq, Repr, Inhabited

/-- The character that a backslash and a letter stand for. -/
def simpleEscape? : Char → Option Char
  | 'b' => some '\x08'
  | 't' => some '\t'
  | 'n' => some '\n'
  | 'f' => some '\x0c'
  | 'r' => some '\r'
  | '"' => some '"'
  | '\\' => some '\\'
  | '/' => some '/'
  | _ => none

/-- The codes of a text after its opening quote, the last one first. -/
def codes : TextPlace → (found : List Nat) → List Char → Option (List Nat × List Char)
  | _, _, [] => none
  | .plain, found, c :: cs =>
      if c == '"' then some (found, cs)
      else if c == '\\' then codes .escape found cs
      else if c.toNat < 32 then none
      else codes .plain (c.toNat :: found) cs
  | .escape, found, c :: cs =>
      if c == 'u' then codes (.code 4 []) found cs
      else
        match simpleEscape? c with
        | some e => codes .plain (e.toNat :: found) cs
        | none => none
  | .code missing digits, found, c :: cs =>
      let digits := digits ++ [c]
      if missing ≤ 1 then
        match Text.hexNumber? digits with
        | some code => codes .plain (code :: found) cs
        | none => none
      else
        codes (.code (missing - 1) digits) found cs

def isHighSurrogate (code : Nat) : Bool := 0xD800 ≤ code && code < 0xDC00

def isLowSurrogate (code : Nat) : Bool := 0xDC00 ≤ code && code < 0xE000

/-- The code point of a pair of surrogates. -/
def joinSurrogates (high low : Nat) : Nat :=
  0x10000 + (high - 0xD800) * 0x400 + (low - 0xDC00)

/-- The characters of codes whose last one comes first, before the characters found already.
Surrogates stand in pairs only. -/
def charactersBefore : (found : List Char) → List Nat → Option (List Char)
  | found, [] => some found
  | found, low :: high :: codes =>
      if isLowSurrogate low && isHighSurrogate high then
        charactersBefore (Char.ofNat (joinSurrogates high low) :: found) codes
      else
        match Text.charOf? low with
        | some c => charactersBefore (c :: found) (high :: codes)
        | none => none
  | found, [code] => (Text.charOf? code).map (· :: found)

/-- A text after its opening quote. -/
def textAfterQuote? (cs : List Char) : Option (String × List Char) := do
  let (found, rest) ← codes .plain [] cs
  return (String.ofList (← charactersBefore [] found), rest)

/-! ## Values -/

def isSpace (c : Char) : Bool := c == ' ' || c == '\t' || c == '\n' || c == '\r'

def skipSpaces (cs : List Char) : List Char := cs.dropWhile isSpace

/-- Sets a member; of two members of one name the later counts. -/
def putMember (name : String) (value : Json) : List (String × Json) → List (String × Json)
  | [] => [(name, value)]
  | (n, v) :: rest =>
      if n == name then (name, value) :: rest else (n, v) :: putMember name value rest

def isLetter (c : Char) : Bool := 'a' ≤ c && c ≤ 'z'

def word? (cs : List Char) : Option (Json × List Char) :=
  match String.ofList (cs.takeWhile isLetter) with
  | "null" => some (null, cs.dropWhile isLetter)
  | "true" => some (bool true, cs.dropWhile isLetter)
  | "false" => some (bool false, cs.dropWhile isLetter)
  | _ => none

mutual

/-- A value, after any spaces. -/
def value : (limit : Nat) → List Char → Option (Json × List Char)
  | 0, _ => none
  | limit + 1, cs =>
      match skipSpaces cs with
      | '"' :: rest => (textAfterQuote? rest).map fun (s, rest) => (text s, rest)
      | '[' :: rest =>
          match skipSpaces rest with
          | ']' :: rest => some (array [], rest)
          | rest => (items limit [] rest).map fun (items, rest) => (array items.reverse, rest)
      | '\x7b' :: rest =>
          match skipSpaces rest with
          | '\x7d' :: rest => some (object [], rest)
          | rest => (members limit [] rest).map fun (members, rest) => (object members, rest)
      | c :: rest => if isLetter c then word? (c :: rest) else number? (c :: rest)
      | [] => none

/-- The rest of an array that is not empty, with the items in reverse order. -/
def items : (limit : Nat) → (found : List Json) → List Char → Option (List Json × List Char)
  | 0, _, _ => none
  | limit + 1, found, cs =>
      match value limit cs with
      | none => none
      | some (item, rest) =>
          match skipSpaces rest with
          | ',' :: rest => items limit (item :: found) rest
          | ']' :: rest => some (item :: found, rest)
          | _ => none

/-- The rest of an object that is not empty. -/
def members : (limit : Nat) → (found : List (String × Json)) → List Char →
    Option (List (String × Json) × List Char)
  | 0, _, _ => none
  | limit + 1, found, cs =>
      match skipSpaces cs with
      | '"' :: rest =>
          match textAfterQuote? rest with
          | none => none
          | some (name, rest) =>
              match skipSpaces rest with
              | ':' :: rest =>
                  match value limit rest with
                  | none => none
                  | some (v, rest) =>
                      match skipSpaces rest with
                      | ',' :: rest => members limit (putMember name v found) rest
                      | '\x7d' :: rest => some (putMember name v found, rest)
                      | _ => none
              | _ => none
      | _ => none

end

/-- Reads a JSON text; `none` if it is not one. -/
def read? (source : String) : Option Json :=
  let cs := source.toList
  match value (2 * cs.length + 1) cs with
  | some (j, rest) => if (skipSpaces rest).isEmpty then some j else none
  | none => none

end Json
end Clausal
