import Clausal.Decimal.Read
import Clausal.Token.Kind

/-!
# Token rules

Each kind of token has a rule that says how many characters at the start of a text spell a token
of that kind.  A text is cut by longest match: of all rules the one that takes the most
characters wins, and of rules that take equally many the first in `Kind.all`, where the keywords
stand before the identifiers.
-/

namespace Clausal
namespace Token

open Decimal (isDigit)

/-! ## Character classes -/

def isLetter (c : Char) : Bool := ('a' ≤ c && c ≤ 'z') || ('A' ≤ c && c ≤ 'Z')

def isNameStart (c : Char) : Bool := isLetter c || c == '_'

def isNameChar (c : Char) : Bool := isNameStart c || isDigit c

/-- The signs that may end a name. -/
def isNameMark (c : Char) : Bool := c == '?' || c == '!'

/-- Characters that separate tokens and are otherwise ignored. -/
def isBlank (c : Char) : Bool := c == ' ' || c == '\t' || c == '\x0c'

/-! ## How many characters a rule takes -/

/-- Number of leading characters in a class. -/
def spanLength (p : Char → Bool) : List Char → Nat
  | [] => 0
  | c :: cs => if p c then spanLength p cs + 1 else 0

/-- The length of `word`, when the text begins with it. -/
def wordLength? (word text : List Char) : Option Nat :=
  if word.isPrefixOf text then some word.length else none

/-- A span lies inside its text. -/
theorem spanLength_le (p : Char → Bool) (text : List Char) : spanLength p text ≤ text.length := by
  induction text with
  | nil => exact Nat.le_refl 0
  | cons c cs ih =>
      unfold spanLength
      split
      · simpa using ih
      · exact Nat.zero_le _

/-- Every character of a span is in the class. -/
theorem of_mem_take_spanLength {p : Char → Bool} {text : List Char} {c : Char}
    (h : c ∈ text.take (spanLength p text)) : p c = true := by
  induction text with
  | nil => simp at h
  | cons d ds ih =>
      by_cases hd : p d = true
      · simp only [spanLength, hd, if_true, List.take_succ_cons, List.mem_cons] at h
        rcases h with rfl | h
        · exact hd
        · exact ih h
      · simp [spanLength, hd] at h

/-- A span of characters in the class ends where a character outside it follows. -/
theorem spanLength_append {p : Char → Bool} {word rest : List Char}
    (inside : ∀ c ∈ word, p c = true) (outside : ∀ c ∈ rest.head?, p c = false) :
    spanLength p (word ++ rest) = word.length := by
  induction word with
  | nil =>
      cases rest with
      | nil => rfl
      | cons c cs =>
          have hc : p c = false := outside c rfl
          simp [spanLength, hc]
  | cons d ds ih =>
      have hd : p d = true := inside d List.mem_cons_self
      have tail := ih fun c member => inside c (List.mem_cons_of_mem d member)
      simp [spanLength, hd, tail]

/-- A fixed word takes its own length, where the text starts with it. -/
theorem wordLength?_eq_some_iff {word text : List Char} {n : Nat} :
    wordLength? word text = some n ↔ word <+: text ∧ n = word.length := by
  unfold wordLength?
  split
  next h => simp [List.isPrefixOf_iff_prefix.mp h, eq_comm]
  next h =>
      have hp : ¬ word <+: text := fun hp => h (List.isPrefixOf_iff_prefix.mpr hp)
      simp [hp]

/-- A name: a letter or underscore, then letters, digits and underscores, and at most one mark. -/
def nameLength? : List Char → Option Nat
  | [] => none
  | c :: cs =>
      if isNameStart c then
        let body := spanLength isNameChar cs
        match cs.drop body with
        | mark :: _ => some (if isNameMark mark then body + 2 else body + 1)
        | [] => some (body + 1)
      else
        none

/-- An atom: a colon directly before a name. -/
def atomLength? : List Char → Option Nat
  | ':' :: cs => (nameLength? cs).map (· + 1)
  | _ => none

/-- Further digits of a number, each of them possibly behind one underscore. -/
def digitsLength : List Char → Nat
  | [] => 0
  | [c] => if isDigit c then 1 else 0
  | c :: d :: cs =>
      if isDigit c then digitsLength (d :: cs) + 1
      else if c == '_' && isDigit d then digitsLength cs + 2
      else 0

/-- An integer begins with a digit. -/
def integerLength? : List Char → Option Nat
  | [] => none
  | c :: cs => if isDigit c then some (digitsLength cs + 1) else none

/-- An exponent: its mark, an optional sign and at least one digit. -/
def exponentLength : List Char → Nat
  | [] => 0
  | e :: cs =>
      if e == 'e' || e == 'E' then
        let sign := match cs with
          | s :: _ => if s == '+' || s == '-' then 1 else 0
          | [] => 0
        match spanLength isDigit (cs.drop sign) with
        | 0 => 0
        | digits => 1 + sign + digits
      else
        0

/-- A float: an integer, a point, at least one digit, and an exponent if one follows. -/
def floatLength? (text : List Char) : Option Nat :=
  match integerLength? text with
  | none => none
  | some whole =>
      match text.drop whole with
      | '.' :: cs =>
          match spanLength isDigit cs with
          | 0 => none
          | digits => some (whole + 1 + digits + exponentLength (cs.drop digits))
      | _ => none

/-- A newline, with the carriage return before it if there is one. -/
def newlineLength? : List Char → Option Nat
  | '\n' :: _ => some 1
  | '\r' :: '\n' :: _ => some 2
  | _ => none

/-- A comment runs to the end of its line. -/
def commentLength? : List Char → Option Nat
  | '#' :: cs => some (spanLength (· != '\n') cs + 1)
  | _ => none

/-! ## The table of rules -/

/-- How many characters at the start of a text a kind takes.  Of a quoted text the rule takes only
the opening quote; its body is scanned apart. -/
def Kind.length? (kind : Kind) (text : List Char) : Option Nat :=
  match kind with
  | .newline => newlineLength? text
  | .comment => commentLength? text
  | .integer => integerLength? text
  | .float => floatLength? text
  | .quoted => wordLength? ['"'] text
  | .atom => atomLength? text
  | .identifier => nameLength? text
  | fixed => (Kind.spellings.lookup fixed).bind fun word => wordLength? word.toList text

/-- Every kind, those with a fixed spelling first. -/
def Kind.all : List Kind :=
  Kind.spellings.map Prod.fst ++
    [.newline, .comment, .integer, .float, .quoted, .atom, .identifier]

/-- The better of two matches: the longer one, and of equally long ones the first. -/
def better : Option (Kind × Nat) → Option (Kind × Nat) → Option (Kind × Nat)
  | none, b => b
  | a, none => a
  | some a, some b => if a.2 < b.2 then some b else some a

/-- The kind that takes the most characters at the start of a text, and how many it takes. -/
def longest? (text : List Char) : Option (Kind × Nat) :=
  Kind.all.foldl (fun best kind => better best ((kind.length? text).map (kind, ·))) none

end Token
end Clausal
