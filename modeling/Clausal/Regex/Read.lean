import Clausal.Regex.Bracket
import Clausal.Decimal.Read

/-!
# The notation of regular expressions

Literals, `.`, sets, escapes, assertions, groups with and without names, flags, alternatives and
repetitions.  A text that is no such expression is refused, and so is one that is nested too deeply
or takes too much room.
-/

namespace Clausal
namespace Regex

/-- What is left of a text, the flags in force and the names of groups met so far. -/
structure Scan where
  rest : List Char
  flags : Flags
  names : List String
  deriving Inhabited

/-! ## Repetitions -/

/-- A count between blanks. -/
def count (cs : List Char) : Option (Nat × List Char) := do
  let started := cs.dropWhile Text.isBlank
  let n ← Decimal.readNat? (started.takeWhile Decimal.isDigit)
  if n < 4294967296 then
    return (n, (started.dropWhile Decimal.isDigit).dropWhile Text.isBlank)
  else
    none

/-- The counts of a repetition after its opening brace. -/
def counts (flags : Flags) (cs : List Char) : Option (Nat × Option Nat × List Char) := do
  let (least, rest) ← count cs
  match rest with
  | '\x7d' :: rest => return (least, some least, rest)
  | ',' :: rest =>
      match flags.skip rest with
      | '\x7d' :: rest => return (least, none, rest)
      | rest =>
          let (most, rest) ← count rest
          match rest with
          | '\x7d' :: rest => if least ≤ most then return (least, some most, rest) else none
          | _ => none
  | _ => none

/-- A question mark after a repetition changes which match is preferred, not whether there is
one. -/
def dropLazy : List Char → List Char
  | '?' :: cs => cs
  | cs => cs

/-- The repetition that a text begins with, if it does: its counts and what follows it. -/
def repetition? (flags : Flags) : List Char → Option (Option (Nat × Option Nat × List Char))
  | '*' :: cs => some (some (0, none, dropLazy cs))
  | '+' :: cs => some (some (1, none, dropLazy cs))
  | '?' :: cs => some (some (0, some 1, dropLazy cs))
  | '\x7b' :: cs =>
      some ((counts flags cs).map fun (least, most, rest) => (least, most, dropLazy (flags.skip rest)))
  | _ => none

/-! ## Groups -/

def isNameStart (c : Char) : Bool :=
  c == '_' || (Text.isWord c && !Text.isDigit c)

def isNameChar (c : Char) : Bool :=
  Text.isWord c || c == '.' || c == '[' || c == ']'

/-- The name of a group up to its closing sign; no two groups have the same one. -/
def groupName (scan : Scan) (cs : List Char) : Option Scan :=
  match cs.takeWhile (· != '>'), cs.dropWhile (· != '>') with
  | c :: name, _ :: rest =>
      let word := String.ofList (c :: name)
      if isNameStart c && name.all isNameChar && !scan.names.contains word then
        some { scan with rest, names := word :: scan.names }
      else
        none
  | _, _ => none

/-- The flags of a group up to the sign that ends them.  The flags after a dash are cleared; no
letter stands twice, and there is one dash at most, which is not the last sign. -/
def readFlags : (flags : Flags) → (seen : List Char) → List Char → Option (Flags × List Char)
  | _, _, [] => none
  | flags, seen, c :: cs =>
      if c == ':' || c == ')' then
        if seen.head? == some '-' then none else some (flags, c :: cs)
      else if seen.contains c then none
      else if c == '-' then readFlags flags (c :: seen) cs
      else
        match flags.set? c (!seen.contains '-') with
        | some flags => readFlags flags (c :: seen) cs
        | none => none

/-- How a group begins, after its opening parenthesis. -/
inductive GroupStart where
  /-- The group goes on with its body. -/
  | body (scan : Scan)
  /-- Flags that hold from here to the end of the group around them. -/
  | flags (scan : Scan)
  deriving Inhabited

/-- The start of a group after its opening parenthesis.  Conditions on what stands around a place
are refused. -/
def groupStart (scan : Scan) (cs : List Char) : Option GroupStart :=
  match scan.flags.skip cs with
  | '?' :: 'P' :: '<' :: rest => (groupName scan rest).map .body
  | '?' :: '<' :: rest => (groupName scan rest).map .body
  | '?' :: ')' :: _ => none
  | '?' :: rest =>
      match readFlags scan.flags [] rest with
      | some (flags, ':' :: rest) => some (.body { scan with rest, flags })
      | some (flags, _ :: rest) => some (.flags { scan with rest, flags })
      | _ => none
  | rest => some (.body { scan with rest })

/-! ## Sequences and alternatives -/

/-- The expressions of a list one after the other. -/
def sequenceOf : List Regex → Regex
  | [] => empty
  | [part] => part
  | parts => sequence parts

/-- One of the expressions of a list. -/
def choiceOf : List Regex → Regex
  | [branch] => branch
  | branches => choice branches

/-- A set as an expression; without all scripts at hand it must be one of ASCII characters. -/
def setRegex? (flags : Flags) (set : CharSet) : Option Regex :=
  if flags.unicode || set.isAscii then some (one set) else none

def Primitive.regex? (flags : Flags) : Primitive → Option Regex
  | literal c => some (one (flags.fold (.single c)))
  | set members => setRegex? flags members
  | assertion condition => some (.assertion condition)

/-- A literal, an escape or a sign with a meaning. -/
def primitive (flags : Flags) : List Char → Option (Regex × List Char)
  | [] => none
  | '\\' :: cs => do
      let (found, rest) ← escape flags cs
      return (← found.regex? flags, rest)
  | '.' :: cs => (setRegex? flags (.complement flags.lineBreaks)).map fun regex => (regex, cs)
  | '^' :: cs =>
      some (assertion (if flags.multiLine then .lineStart flags.paired else .textStart), cs)
  | '$' :: cs =>
      some (assertion (if flags.multiLine then .lineFinish flags.paired else .textFinish), cs)
  | '[' :: cs => do
      let (set, rest) ← bracket flags (2 * cs.length + 2) cs
      return (← setRegex? flags set, rest)
  | c :: cs => some (one (flags.fold (.single c)), cs)

/-- How deeply the forms of an expression may be nested. -/
def maxDepth : Nat := 250

mutual

/-- Alternatives up to a closing parenthesis or the end; `level` more groups may be opened. -/
def alternatives : (limit level : Nat) → (branches : List Regex) → Scan → Option (Regex × Scan)
  | 0, _, _, _ => none
  | limit + 1, level, branches, scan =>
      match parts limit level [] false scan with
      | none => none
      | some (branch, scan) =>
          match scan.rest with
          | '|' :: rest => alternatives limit level (branches ++ [branch]) { scan with rest }
          | _ => some (choiceOf (branches ++ [branch]), scan)

/-- The parts of one alternative, the last one first; `repeatable` says whether a repetition may
follow the last one. -/
def parts : (limit level : Nat) → (done : List Regex) → (repeatable : Bool) → Scan →
    Option (Regex × Scan)
  | 0, _, _, _, _ => none
  | limit + 1, level, done, repeatable, scan =>
      let scan := { scan with rest := scan.flags.skip scan.rest }
      match scan.rest with
      | [] => some (sequenceOf done.reverse, scan)
      | '|' :: _ => some (sequenceOf done.reverse, scan)
      | ')' :: _ => some (sequenceOf done.reverse, scan)
      | '(' :: cs =>
          match level, groupStart scan cs with
          | _, none => none
          | _, some (.flags scan) => parts limit level (empty :: done) false scan
          | 0, some (.body _) => none
          | level + 1, some (.body inner) =>
              match alternatives limit level [] inner with
              | some (body, { rest := ')' :: rest, names, .. }) =>
                  parts limit (level + 1) (group body :: done) true { scan with rest, names }
              | _ => none
      | cs =>
          match repetition? scan.flags cs with
          | some (some (least, most, rest)) =>
              match repeatable, done with
              | true, body :: done =>
                  parts limit level (repeated body least most :: done) true { scan with rest }
              | _, _ => none
          | some none => none
          | none =>
              match primitive scan.flags cs with
              | some (regex, rest) => parts limit level (regex :: done) true { scan with rest }
              | none => none

end

/-- The room that an expression may take. -/
def maxWeight : Nat := 10485760

/-- Reads a regular expression; `none` if the text is not one. -/
def ofText? (text : String) : Option Regex :=
  let cs := text.toList
  match alternatives (2 * cs.length + 2) maxDepth [] ⟨cs, {}, []⟩ with
  | some (regex, { rest := [], .. }) =>
      if regex.depth ≤ maxDepth && regex.weight ≤ maxWeight then some regex else none
  | _ => none

end Regex
end Clausal
