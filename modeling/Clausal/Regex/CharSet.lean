import Clausal.Text.Blank
import Clausal.Text.Case
import Clausal.Text.Word

/-!
# Sets of characters

The sets that a regular expression can name: ranges, the classes of digits, word characters and
blanks, and what is built from them by union, complement, intersection and the two differences.
-/

namespace Clausal
namespace Regex

/-- How two sets are combined. -/
inductive SetOp where
  | intersection
  | difference
  | symmetricDifference
  deriving DecidableEq, Repr, Inhabited

def SetOp.holds : SetOp → (left right : Bool) → Bool
  | intersection, left, right => left && right
  | difference, left, right => left && !right
  | symmetricDifference, left, right => left != right

inductive CharSet where
  | nothing
  | range (low high : Char)
  | listed (ranges : Text.Ranges)
  | digit
  | word
  | blank
  | complement (set : CharSet)
  /-- The characters that differ from a member at most in case. -/
  | ignoringCase (set : CharSet)
  /-- The same, for the case of ASCII letters alone. -/
  | ignoringAsciiCase (set : CharSet)
  | union (sets : List CharSet)
  | combined (op : SetOp) (left right : CharSet)
  /-- A set between brackets. -/
  | bracketed (set : CharSet)
  deriving Repr, Inhabited

/-- An ASCII letter in its other case; any other character as it is. -/
def switchCase (c : Char) : Char := if c.isUpper then c.toLower else c.toUpper

namespace CharSet

mutual

def holds : CharSet → Char → Bool
  | nothing, _ => false
  | range low high, c => low ≤ c && c ≤ high
  | listed ranges, c => ranges.holds c
  | digit, c => Text.isDigit c
  | word, c => Text.isWord c
  | blank, c => Text.isBlank c
  | complement set, c => !set.holds c
  | ignoringCase set, c => (Text.caseVariants c).any set.holds
  | ignoringAsciiCase set, c => set.holds c || set.holds (switchCase c)
  | union sets, c => anyHolds sets c
  | combined op left right, c => op.holds (left.holds c) (right.holds c)
  | bracketed set, c => set.holds c

def anyHolds : List CharSet → Char → Bool
  | [], _ => false
  | set :: sets, c => set.holds c || anyHolds sets c

end

/-- The union of the members of a list; one set alone is its own union. -/
def ofList : List CharSet → CharSet
  | [] => nothing
  | [set] => set
  | sets => union sets

def single (c : Char) : CharSet := range c c

def newline : CharSet := single '\n'

/-- A row of ranges given by their ends. -/
def ofEnds (ends : List (Char × Char)) : CharSet :=
  listed (ends.map fun (low, high) => (low.toNat, high.toNat))

/-! ## Named sets of ASCII characters -/

def asciiDigit : CharSet := ofEnds [('0', '9')]

def asciiWord : CharSet := ofEnds [('0', '9'), ('A', 'Z'), ('_', '_'), ('a', 'z')]

def asciiBlank : CharSet := ofEnds [('\t', '\r'), (' ', ' ')]

/-- The sets that are named between colons inside brackets. -/
def ascii? : String → Option CharSet
  | "alnum" => some (ofEnds [('0', '9'), ('A', 'Z'), ('a', 'z')])
  | "alpha" => some (ofEnds [('A', 'Z'), ('a', 'z')])
  | "ascii" => some (ofEnds [('\x00', '\x7f')])
  | "blank" => some (ofEnds [('\t', '\t'), (' ', ' ')])
  | "cntrl" => some (ofEnds [('\x00', '\x1f'), ('\x7f', '\x7f')])
  | "digit" => some asciiDigit
  | "graph" => some (ofEnds [('!', '~')])
  | "lower" => some (ofEnds [('a', 'z')])
  | "print" => some (ofEnds [(' ', '~')])
  | "punct" => some (ofEnds [('!', '/'), (':', '@'), ('[', '\x60'), ('\x7b', '~')])
  | "space" => some asciiBlank
  | "upper" => some (ofEnds [('A', 'Z')])
  | "word" => some asciiWord
  | "xdigit" => some (ofEnds [('0', '9'), ('A', 'F'), ('a', 'f')])
  | _ => none

/-- Whether a set leaves the second half of the first 256 characters alone. -/
def isAscii (set : CharSet) : Bool :=
  (List.range 128).all fun n => !set.holds (Char.ofNat (n + 128))

/-! ## Measures -/

mutual

/-- How deeply brackets, unions and combinations are nested. -/
def depth : CharSet → Nat
  | complement set => set.depth
  | ignoringCase set => set.depth
  | ignoringAsciiCase set => set.depth
  | union sets => depthAmong sets + 1
  | combined _ left right => max left.depth right.depth + 1
  | bracketed set => set.depth + 1
  | _ => 0

def depthAmong : List CharSet → Nat
  | [] => 0
  | set :: sets => max set.depth (depthAmong sets)

end

mutual

/-- The room that the byte sequences of the members take. -/
def sequenceWeight : CharSet → Nat
  | nothing => 0
  | range _ high => if high.toNat < 128 then 8 else 68
  | listed ranges => 8 * ranges.length
  | digit => 5116
  | word => 49836
  | blank => 680
  | complement set => set.sequenceWeight + 940
  | ignoringCase set => 2 * set.sequenceWeight
  | ignoringAsciiCase set => 2 * set.sequenceWeight
  | union sets => sequenceWeights sets
  | combined _ left right => left.sequenceWeight + right.sequenceWeight
  | bracketed set => set.sequenceWeight

def sequenceWeights : List CharSet → Nat
  | [] => 0
  | set :: sets => set.sequenceWeight + sequenceWeights sets

end

/-- The room that one character of the set takes in an expression. -/
def weight : CharSet → Nat
  | range low high =>
      if low = high then 32 * low.utf8Size else 64 + sequenceWeight (range low high)
  | set => 64 + set.sequenceWeight

end CharSet
end Regex
end Clausal
