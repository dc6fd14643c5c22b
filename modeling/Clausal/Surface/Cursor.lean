import Clausal.Token.Scan

/-!
# Reading tokens

A `Cursor` stands at one token of a text.  Moving it on passes over the faults of the scan and
records them.  `Reader` is the shape of every reading function: it moves the cursor and gives a
result, a fault, or notice that its step limit was too small; the cursor is kept in every case,
so that reading can go on after a fault.
-/

namespace Clausal
namespace Surface

open Token (Kind Lexeme)

/-- What the spans of a text are made from: its line table and its size in bytes. -/
structure Layout where
  lines : LineTable
  size : Nat

def Layout.ofText (source : List Char) : Layout :=
  ⟨LineTable.ofText source, Source.byteLength source⟩

/-- The empty span at the end of the text. -/
def Layout.endSpan (layout : Layout) : Span := layout.lines.span layout.size layout.size

/-- A place between the tokens of a text. -/
structure Cursor where
  /-- The token at the cursor; none at the end of the text. -/
  current : Option Token
  /-- What follows it. -/
  rest : List Lexeme
  /-- Where the last token before the cursor ended. -/
  passed : Nat
  /-- The faults met so far, in source order. -/
  errors : List ParseError
  deriving Inhabited

namespace Cursor

/-- The first token of a list of lexemes, the faults before it and the lexemes after it. -/
def nextToken : List Lexeme → List ParseError × Option Token × List Lexeme
  | [] => ([], none, [])
  | .ok token :: rest => ([], some token, rest)
  | .error e :: rest =>
      let (errors, token, rest) := nextToken rest
      (e :: errors, token, rest)

/-- Comments are no part of any form. -/
def isComment : Lexeme → Bool
  | .ok token => token.kind == .comment
  | .error _ => false

/-- The cursor at the first token of a list of lexemes. -/
def ofLexemes (lexemes : List Lexeme) : Cursor :=
  let (errors, current, rest) := nextToken (lexemes.filter fun l => !isComment l)
  { current, rest, passed := 0, errors }

/-- Moves on by one token. -/
def advance (c : Cursor) : Cursor :=
  let (errors, current, rest) := nextToken c.rest
  { current, rest
    passed := match c.current with
      | some token => token.span.stop
      | none => c.passed
    errors := c.errors ++ errors }

def kind? (c : Cursor) : Option Kind := c.current.map (·.kind)

def sees (c : Cursor) (kind : Kind) : Bool := c.kind? == some kind

def seesAny (c : Cursor) (p : Kind → Bool) : Bool := c.kind?.any p

/-- The kind of the token after the current one; none when a fault stands before it. -/
def nextKind? (c : Cursor) : Option Kind :=
  match c.rest with
  | .ok token :: _ => some token.kind
  | _ => none

/-- Bound on the number of tokens from the cursor on. -/
def remaining (c : Cursor) : Nat :=
  match c.current with
  | some _ => c.rest.length + 1
  | none => 0

/-- Passes over tokens of the given kinds, at most `limit` of them. -/
def skipUpTo (p : Kind → Bool) : (limit : Nat) → Cursor → Cursor
  | 0, c => c
  | limit + 1, c => if c.seesAny p then skipUpTo p limit c.advance else c

/-- Passes over all leading tokens of the given kinds. -/
def skip (p : Kind → Bool) (c : Cursor) : Cursor := skipUpTo p c.remaining c

/-- What follows the next token is shorter by at least that token. -/
theorem length_nextToken (lexemes : List Lexeme) :
    (nextToken lexemes).2.2.length ≤ lexemes.length - 1 := by
  induction lexemes with
  | nil => exact Nat.le_refl 0
  | cons l ls ih =>
      cases l with
      | ok token => simp [nextToken]
      | error e =>
          exact Nat.le_trans ih (Nat.sub_le _ _)

/-- Moving on from a token leaves fewer tokens, so reading token by token comes to an end. -/
theorem remaining_advance {c : Cursor} (h : c.current.isSome = true) :
    c.advance.remaining < c.remaining := by
  have bound := length_nextToken c.rest
  obtain ⟨token, found⟩ := Option.isSome_iff_exists.mp h
  simp only [remaining, advance, found]
  cases hc : (nextToken c.rest).2.1 with
  | none => simp
  | some next =>
      have nonempty : c.rest ≠ [] := by
        intro empty
        rw [empty] at hc
        cases hc
      have positive := List.length_pos_iff.mpr nonempty
      exact Nat.succ_lt_succ (Nat.lt_of_le_of_lt bound (Nat.sub_lt positive Nat.one_pos))

end Cursor

/-- Why reading stopped. -/
inductive Halt where
  | fault (error : ParseError)
  /-- The step limit was too small for the text. -/
  | exhausted
  deriving Inhabited

/-- A function that reads part of a text. -/
abbrev Reader := EStateM Halt Cursor

namespace Reader

def fail {α : Type} (e : ParseError) : Reader α := throw (.fault e)

def exhausted {α : Type} : Reader α := throw .exhausted

def sees (kind : Kind) : Reader Bool := return (← get).sees kind

def advance : Reader Unit := modify Cursor.advance

def skipNewlines : Reader Unit := modify (Cursor.skip (· == .newline))

def skipSeparators : Reader Unit := modify (Cursor.skip Kind.isSeparator)

variable (layout : Layout)

/-- The span of the current token, or the end of the text. -/
def currentSpan : Reader Span :=
  return (← get).current.elim layout.endSpan (·.span)

/-- The fault "something else was expected here". -/
def unexpected {α : Type} (expected : String) : Reader α := do
  match (← get).current with
  | some token => fail (.unexpectedToken token.text expected token.span)
  | none => fail (.unexpectedEnd expected layout.endSpan)

/-- Takes a token of the given kind; `expected` words the fault if there is none. -/
def takeAs (kind : Kind) (expected : String) : Reader Token := do
  match (← get).current with
  | some token =>
      if token.kind = kind then
        advance
        return token
      else
        unexpected layout expected
  | none => unexpected layout expected

/-- Takes a token of the given kind. -/
def expect (kind : Kind) : Reader Token := takeAs layout kind kind.describe

/-- Takes an identifier; `what` says what it would name. -/
def name (what : String) : Reader Token := takeAs layout .identifier what

/-- The span from `start` to the end of the last token taken. -/
def spanFrom (start : Nat) : Reader Span := do
  return layout.lines.span start (max (← get).passed start)

end Reader

end Surface
end Clausal
