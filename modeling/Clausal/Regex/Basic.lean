import Clausal.Regex.CharSet

/-!
# Regular expressions

A regular expression is searched for anywhere in a text.  Matching follows whole sets of places:
`after` takes the places where a match of an expression may begin to those where it may end.  Every
form is a plain recursion on the expression, and a repetition ends when no new place is found.
-/

namespace Clausal

namespace Regex

/-- A place of a text: what stands before it and after it. -/
structure Place where
  before : Option Char
  after : Option Char
  deriving DecidableEq, Repr, Inhabited

/-- The places of a text from one on, given the character before that one. -/
def placesFrom (before : Option Char) : List Char → List Place
  | [] => [⟨before, none⟩]
  | c :: cs => ⟨before, some c⟩ :: placesFrom (some c) cs

/-- The places of a text, of which there is one more than characters. -/
def places (text : List Char) : List Place := placesFrom none text

/-- A condition on which sides of a place have word characters. -/
inductive WordPlace where
  | boundary
  | noBoundary
  | start
  | finish
  | startHalf
  | finishHalf
  deriving DecidableEq, Repr, Inhabited

def WordPlace.holds : WordPlace → (before after : Bool) → Bool
  | boundary, before, after => before != after
  | noBoundary, before, after => before == after
  | start, before, after => !before && after
  | finish, before, after => before && !after
  | startHalf, before, _ => !before
  | finishHalf, _, after => !after

/-- A condition on a place of a text. -/
inductive Assertion where
  | textStart
  | textFinish
  /-- The start of a line; `paired` lines end in a carriage return, a newline or both. -/
  | lineStart (paired : Bool)
  | lineFinish (paired : Bool)
  | word (set : CharSet) (kind : WordPlace)
  deriving Repr, Inhabited

def Assertion.holds (place : Place) : Assertion → Bool
  | textStart => place.before.isNone
  | textFinish => place.after.isNone
  | lineStart paired =>
      place.before.isNone || place.before == some '\n' ||
        (paired && place.before == some '\r' && place.after != some '\n')
  | lineFinish false => place.after.isNone || place.after == some '\n'
  | lineFinish true =>
      place.after.isNone || place.after == some '\r' ||
        (place.after == some '\n' && place.before != some '\r')
  | word set kind => kind.holds (place.before.any set.holds) (place.after.any set.holds)

end Regex

inductive Regex where
  | empty
  | one (set : Regex.CharSet)
  | assertion (condition : Regex.Assertion)
  | sequence (parts : List Regex)
  | choice (branches : List Regex)
  /-- At least `least` times the body, and at most `most` times if that is given. -/
  | repeated (body : Regex) (least : Nat) (most : Option Nat)
  | group (body : Regex)
  deriving Repr, Inhabited

namespace Regex

/-! ## Sets of places -/

/-- A set of places of a text: for each place, whether it is in the set. -/
abbrev PlaceSet := List Bool

namespace PlaceSet

/-- Whether there is a place in the set. -/
def isInhabited (set : PlaceSet) : Bool := set.any id

def union (set other : PlaceSet) : PlaceSet := List.zipWith (· || ·) set other

/-- The places of the first set that are not in the second. -/
def without (set other : PlaceSet) : PlaceSet := List.zipWith (fun a b => a && !b) set other

/-- The places of the set that meet a condition. -/
def filter (condition : Place → Bool) (text : List Place) (set : PlaceSet) : PlaceSet :=
  List.zipWith (fun here place => here && condition place) set text

/-- Moves every place on by one; the last place of the text has none after it. -/
def next (set : PlaceSet) : PlaceSet := false :: set.dropLast

/-- Takes a step again and again, `count` times.  A step that changes nothing need not be
repeated. -/
def times (step : PlaceSet → PlaceSet) : (count : Nat) → PlaceSet → PlaceSet
  | 0, set => set
  | count + 1, set =>
      let reached := step set
      if reached = set then set else times step count reached

/-- All places that at most `limit` steps reach; `fresh` are those whose steps were not taken
yet. -/
def reach (step : PlaceSet → PlaceSet) : (limit : Nat) → (reached fresh : PlaceSet) → PlaceSet
  | 0, reached, _ => reached
  | limit + 1, reached, fresh =>
      let found := (step fresh).without reached
      if found.isInhabited then reach step limit (reached.union found) found else reached

end PlaceSet

/-! ## Matching -/

mutual

/-- The places of a text where a match can end that begins at one of the given places. -/
def after (text : List Place) : Regex → PlaceSet → PlaceSet
  | empty, set => set
  | one members, set => (set.filter (fun place => place.after.any members.holds) text).next
  | assertion condition, set => set.filter (fun place => condition.holds place) text
  | sequence parts, set => afterAll text parts set
  | choice branches, set => afterAny text branches set
  | group body, set => after text body set
  | repeated body least most, set =>
      let reached := PlaceSet.times (after text body) least set
      let limit := match most with
        | some most => most - least
        | none => text.length
      PlaceSet.reach (after text body) limit reached reached

/-- The places after one expression and then another. -/
def afterAll (text : List Place) : List Regex → PlaceSet → PlaceSet
  | [], set => set
  | part :: parts, set => afterAll text parts (after text part set)

/-- The places after any of some expressions. -/
def afterAny (text : List Place) : List Regex → PlaceSet → PlaceSet
  | [], set => set.map fun _ => false
  | branch :: branches, set => (after text branch set).union (afterAny text branches set)

end

/-- Whether the expression matches somewhere in a text. -/
def isMatch (regex : Regex) (text : String) : Bool :=
  let text := places text.toList
  (after text regex (text.map fun _ => true)).isInhabited

/-! ## Measures -/

mutual

/-- Whether every match is empty. -/
def isEmptyOnly : Regex → Bool
  | empty => true
  | one _ => false
  | assertion _ => true
  | sequence parts => allEmptyOnly parts
  | choice branches => allEmptyOnly branches
  | repeated body _ most => most == some 0 || body.isEmptyOnly
  | group body => body.isEmptyOnly

def allEmptyOnly : List Regex → Bool
  | [] => true
  | regex :: rest => regex.isEmptyOnly && allEmptyOnly rest

end

mutual

/-- How deeply the forms of an expression are nested. -/
def depth : Regex → Nat
  | empty => 0
  | one set => set.depth
  | assertion _ => 0
  | sequence parts => depthAmong parts + 1
  | choice branches => depthAmong branches + 1
  | repeated body _ _ => body.depth + 1
  | group body => body.depth + 1

def depthAmong : List Regex → Nat
  | [] => 0
  | regex :: rest => max regex.depth (depthAmong rest)

end

mutual

/-- The room that an expression takes when its repetitions are written out. -/
def weight : Regex → Nat
  | empty => 32
  | one set => set.weight
  | assertion _ => 32
  | sequence parts => weights parts
  | choice branches => 64 + 4 * branches.length + weights branches
  | group body => body.weight + 64
  | repeated body least most =>
      if most = some 0 then 32
      else if body.isEmptyOnly then body.weight + 72
      else
        match most with
        | some most => least * body.weight + (most - least) * (body.weight + 40) + 32
        | none => max least 1 * body.weight + 72

def weights : List Regex → Nat
  | [] => 0
  | regex :: rest => regex.weight + weights rest

end

end Regex
end Clausal
