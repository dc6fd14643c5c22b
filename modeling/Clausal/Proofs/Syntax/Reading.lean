import Mathlib.Data.List.Forall2
import Clausal.Proofs.Syntax.Precedence
import Clausal.Proofs.Syntax.Lexing

/-!
# Reading given words

`Cursor.Ahead` relates a cursor to the words from it to the end of the text, and `Reader.Run` says
that a reader, started before some words, ends before the words `rest` and gives a result with a
given property.  Every step of a reader has a rule of this kind, and so has a row of things
between commas.
-/

namespace Clausal
namespace Surface

open Token (Kind Lexeme)
open Word (fixed separated)

/-! ## Words ahead of a cursor -/

namespace Cursor

/-- The kind of the first of some words. -/
def headKind : List Word → Option Kind
  | [] => none
  | word :: _ => some word.kind

@[simp] theorem headKind_nil : headKind [] = none := rfl

@[simp] theorem headKind_cons (word : Word) (words : List Word) :
    headKind (word :: words) = some word.kind := rfl

/-- The words from the cursor to the end of the text: no fault stands among or before them, and
none of them is a newline. -/
structure Ahead (c : Cursor) (words : List Word) : Prop where
  clean : c.errors = []
  tokens : (c.current.toList.map Except.ok ++ c.rest).map Word.ofLexeme? = words.map some
  atEnd : c.current = none → c.rest = []
  solid : ∀ word ∈ words, word.kind ≠ .newline

variable {c : Cursor} {word : Word} {words : List Word}

theorem Ahead.token (ahead : c.Ahead (word :: words)) :
    ∃ span, c.current = some ⟨word.kind, word.text, span⟩ ∧
      c.rest.map Word.ofLexeme? = words.map some := by
  have tokens := ahead.tokens
  cases current : c.current with
  | none => simp [current, ahead.atEnd current] at tokens
  | some token =>
      simp only [current, Option.toList_some, List.map_cons, List.map_nil, List.cons_append,
        List.nil_append, Word.ofLexeme?, List.cons.injEq, Option.some.injEq] at tokens
      obtain ⟨rfl, rest⟩ := tokens
      exact ⟨token.span, rfl, rest⟩

theorem Ahead.kind?_eq (ahead : c.Ahead words) : c.kind? = headKind words := by
  cases words with
  | nil =>
      have tokens := ahead.tokens
      cases current : c.current with
      | none => simp [kind?, current]
      | some token => simp [current] at tokens
  | cons word words =>
      obtain ⟨span, current, -⟩ := ahead.token
      simp [kind?, current]

/-- Lexemes that are all words are words ahead of the cursor at the first of them. -/
theorem nextToken_of_words {lexemes : List Lexeme}
    (h : lexemes.map Word.ofLexeme? = words.map some) :
    nextToken lexemes = ([], match lexemes with
      | .ok token :: rest => (some token, rest)
      | _ => (none, [])) := by
  cases lexemes with
  | nil => rfl
  | cons first rest =>
      cases first with
      | ok token => rfl
      | error e => cases words <;> simp [Word.ofLexeme?] at h

theorem ahead_of_words {lexemes : List Lexeme} (passed : Nat)
    (h : lexemes.map Word.ofLexeme? = words.map some)
    (solid : ∀ word ∈ words, word.kind ≠ .newline) :
    Ahead ⟨(nextToken lexemes).2.1, (nextToken lexemes).2.2, passed, (nextToken lexemes).1⟩
      words := by
  rw [nextToken_of_words h]
  cases lexemes with
  | nil => exact ⟨rfl, by simpa using h, fun _ => rfl, solid⟩
  | cons first rest =>
      cases first with
      | ok token => exact ⟨rfl, by simpa using h, nofun, solid⟩
      | error e => cases words <;> simp [Word.ofLexeme?] at h

theorem Ahead.advance (ahead : c.Ahead (word :: words)) : c.advance.Ahead words := by
  obtain ⟨span, current, rest⟩ := ahead.token
  have next := ahead_of_words span.stop rest
    fun word member => ahead.solid word (List.mem_cons_of_mem _ member)
  have moved : c.advance =
      ⟨(nextToken c.rest).2.1, (nextToken c.rest).2.2, span.stop, (nextToken c.rest).1⟩ := by
    simp [Cursor.advance, current, ahead.clean]
  rw [moved]
  exact next

/-- There is no newline to pass over. -/
theorem Ahead.skip_eq (ahead : c.Ahead words) : c.skip (· == .newline) = c := by
  have stays : c.seesAny (· == .newline) = false := by
    rw [seesAny, ahead.kind?_eq]
    cases words with
    | nil => rfl
    | cons word words => simpa using ahead.solid word List.mem_cons_self
  unfold skip
  cases c.remaining with
  | zero => rfl
  | succ n => simp [skipUpTo, stays]

/-- The token after the current one is that of the second word. -/
theorem Ahead.nextKind?_eq (ahead : c.Ahead (word :: words)) : c.nextKind? = headKind words := by
  obtain ⟨-, -, rest⟩ := ahead.token
  cases shape : c.rest with
  | nil =>
      cases words with
      | nil => simp [nextKind?, shape]
      | cons second words => simp [shape] at rest
  | cons first others =>
      cases words with
      | nil => simp [shape] at rest
      | cons second words =>
          cases first with
          | error e => simp [shape, Word.ofLexeme?] at rest
          | ok token =>
              simp only [shape, List.map_cons, Word.ofLexeme?, List.cons.injEq,
                Option.some.injEq] at rest
              simp [nextKind?, shape, ← rest.1]

end Cursor

/-! ## Steps that succeed -/

namespace Reader

open Cursor (headKind)

/-- From the cursor `c` the reader ends before the words `rest` with a result that has `P`. -/
def Run {α : Type} (x : Reader α) (c : Cursor) (rest : List Word) (P : α → Prop) : Prop :=
  Ensures NeverHalts c x fun a c' => P a ∧ c'.Ahead rest

section Steps

variable {α β : Type} {x : Reader α} {f : α → Reader β} {c c' : Cursor} {word : Word}
  {words rest : List Word} {P : α → Prop} {Q : β → Prop} {layout : Layout}

theorem Run.bind (first : Run x c words P)
    (after : ∀ a c', P a → c'.Ahead words → Run (f a) c' rest Q) : Run (x >>= f) c rest Q :=
  Ensures.bind first fun a c' ⟨holds, ahead⟩ => after a c' holds ahead

theorem Run.pure {a : α} (holds : P a) (ahead : c.Ahead rest) : Run (pure a) c rest P :=
  Ensures.pure ⟨holds, ahead⟩

theorem Run.mono {P' : α → Prop} (run : Run x c rest P) (weaker : ∀ a, P a → P' a) :
    Run x c rest P' :=
  Ensures.mono run fun a _ ⟨holds, ahead⟩ => ⟨weaker a holds, ahead⟩

theorem skipNewlines_of_ahead (ahead : c.Ahead words) : skipNewlines c = .ok () c := by
  change EStateM.Result.ok () (c.skip (· == .newline)) = .ok () c
  rw [ahead.skip_eq]

theorem run_skipNewlines (ahead : c.Ahead words) : Run skipNewlines c words fun _ => True :=
  Ensures.step (skipNewlines_of_ahead ahead) ⟨trivial, ahead⟩

theorem run_sees (ahead : c.Ahead words) (kind : Kind) :
    Run (sees kind) c words fun b => b = (headKind words == some kind) := by
  refine Ensures.step rfl ⟨?_, ahead⟩
  rw [Cursor.sees, ahead.kind?_eq]

theorem run_advance (ahead : c.Ahead (word :: words)) : Run advance c words fun _ => True :=
  Ensures.step rfl ⟨trivial, ahead.advance⟩

theorem run_takeAs (ahead : c.Ahead (word :: words)) {kind : Kind} (same : word.kind = kind)
    {expected : String} :
    Run (takeAs layout kind expected) c words fun token => token.text = word.text := by
  obtain ⟨span, current, -⟩ := ahead.token
  refine Leads.takeAs (fun token found _ => .single ?_) fun none => ?_
  · cases current.symm.trans found
    exact ⟨rfl, ahead.advance⟩
  · exact absurd same (none _ current)

theorem run_expect {kind : Kind} (ahead : c.Ahead (fixed kind :: words)) :
    Run (expect layout kind) c words fun _ => True :=
  (run_takeAs ahead rfl).mono fun _ _ => trivial

theorem run_spanFrom (ahead : c.Ahead words) {start : Nat} :
    Run (spanFrom layout start) c words fun _ => True :=
  Ensures.step rfl ⟨trivial, ahead⟩

theorem run_currentSpan (ahead : c.Ahead words) :
    Run (currentSpan layout) c words fun _ => True :=
  Ensures.step rfl ⟨trivial, ahead⟩

end Steps

/-! ## Rows -/

/-- The tokens that begin an operand. -/
def startsOperand : Kind → Bool
  | .integer | .float | .quoted | .atom | .kwTrue | .kwFalse | .kwNil | .identifier | .minus | .kwNot
  | .leftParen | .leftBracket | .leftBrace | .percentBrace => true
  | _ => false

/-- The tokens that close a row. -/
def closesRow : Kind → Bool
  | .rightParen | .rightBracket | .rightBrace => true
  | _ => false

/-- Words that begin like an operand. -/
def Starts (words : List Word) : Prop := ∃ kind, headKind words = some kind ∧ startsOperand kind

theorem Starts.append {words : List Word} (starts : Starts words) (rest : List Word) :
    ∃ kind, headKind (words ++ rest) = some kind ∧ startsOperand kind := by
  obtain ⟨kind, head, operand⟩ := starts
  cases words with
  | nil => cases head
  | cons word words => exact ⟨kind, head, operand⟩

/-- What begins like an operand does not begin with a closing token. -/
theorem Starts.headKind_ne {words : List Word} (starts : Starts words) {close : Kind}
    (closes : closesRow close = true) (rest : List Word) : headKind (words ++ rest) ≠ some close := by
  obtain ⟨kind, head, operand⟩ := starts.append rest
  rw [head]
  rintro ⟨⟩
  cases close <;> simp_all [startsOperand, closesRow]

theorem Starts.length_pos {words : List Word} (starts : Starts words) : 0 < words.length := by
  obtain ⟨kind, head, -⟩ := starts
  cases words with
  | nil => cases head
  | cons word words => exact Nat.zero_lt_succ _

/-- What stands behind an item of a row: the items after it, or else what follows the row. -/
def behind : List (List Word) → List Word → List Word
  | [], rest => rest
  | second :: others, rest => fixed .comma :: (separated (second :: others) ++ rest)

theorem separated_cons (first : List Word) (others : List (List Word)) (rest : List Word) :
    separated (first :: others) ++ rest = first ++ behind others rest := by
  cases others with
  | nil => simp [separated, behind]
  | cons second others => simp [separated, behind]

section Rows

variable {α β : Type} {item : Reader β} {close : Kind} {words : α → List Word}
  {reading : β → α → Prop}

/-- A row is read item by item, each of them up to the comma or the closing token behind it. -/
theorem run_row (closes : closesRow close = true) {items : List α} {before : List β} {rounds : Nat}
    {c : Cursor} {rest : List Word}
    (reads : ∀ a ∈ items, ∀ c after, headKind after = some .comma ∨ headKind after = some close →
      c.Ahead (words a ++ after) → Run item c after fun b => reading b a)
    (starts : ∀ a ∈ items, Starts (words a)) (enough : items.length < rounds)
    (ahead : c.Ahead (separated (items.map words) ++ fixed close :: rest)) :
    Run (row item close rounds before) c (fixed close :: rest)
      fun out => ∃ read, out = before ++ read ∧ List.Forall₂ reading read items := by
  induction items generalizing before rounds c with
  | nil =>
      obtain ⟨rounds, rfl⟩ := Nat.exists_eq_succ_of_ne_zero (Nat.ne_zero_of_lt enough)
      rw [row]
      refine (run_skipNewlines ahead).bind fun _ c₁ _ ahead => ?_
      refine (run_sees ahead close).bind fun closed c₂ seen ahead => ?_
      have found : closed = true := by simpa [separated, fixed] using seen
      rw [if_pos found]
      exact .pure ⟨[], by simp⟩ ahead
  | cons a items ih =>
      obtain ⟨rounds, rfl⟩ := Nat.exists_eq_succ_of_ne_zero (Nat.ne_zero_of_lt enough)
      rw [List.map_cons, separated_cons] at ahead
      have other : close ≠ .comma := by
        rintro rfl
        cases closes
      rw [row]
      refine (run_skipNewlines ahead).bind fun _ c₁ _ ahead => ?_
      refine (run_sees ahead close).bind fun closed c₂ seen ahead => ?_
      have more : ¬ closed = true := by
        rw [seen]
        simpa using (starts a List.mem_cons_self).headKind_ne closes _
      rw [if_neg more]
      refine (reads a List.mem_cons_self c₂ _ ?_ ahead).bind fun next c₃ same ahead => ?_
      · cases items <;> simp [behind, fixed]
      refine (run_skipNewlines ahead).bind fun _ c₄ _ ahead => ?_
      refine (run_sees ahead .comma).bind fun comma c₅ seen ahead => ?_
      -- The comma tells whether the loop goes on, and it is there if another item is.
      cases items with
      | nil =>
          have last : ¬ comma = true := by simpa [seen, behind, fixed] using other
          rw [if_neg last]
          exact .pure ⟨[next], rfl, .cons same .nil⟩ ahead
      | cons second items =>
          have goesOn : comma = true := by simpa [behind, fixed] using seen
          rw [if_pos goesOn]
          refine (run_advance ahead).bind fun _ c₆ _ ahead => ?_
          refine (ih (fun b member => reads b (List.mem_cons_of_mem _ member))
            (fun b member => starts b (List.mem_cons_of_mem _ member))
            (Nat.lt_of_succ_lt_succ enough) ahead).mono ?_
          rintro _ ⟨read, rfl, related⟩
          exact ⟨next :: read, by simp, .cons same related⟩

end Rows

theorem length_le_separated {rows : List (List Word)} {words : List Word} (member : words ∈ rows) :
    words.length ≤ (separated rows).length := by
  induction rows with
  | nil => cases member
  | cons first rows ih =>
      have shape := separated_cons first rows []
      rw [List.append_nil] at shape
      rw [shape]
      rcases List.mem_cons.mp member with rfl | later
      · simp
      · have inside := ih later
        cases rows with
        | nil => cases later
        | cons second rows =>
            simp only [behind, List.length_append, List.length_cons, List.append_nil]
            omega

theorem length_rows_le_separated {rows : List (List Word)} (h : ∀ words ∈ rows, 0 < words.length) :
    rows.length ≤ (separated rows).length := by
  induction rows with
  | nil => exact Nat.le_refl 0
  | cons first rows ih =>
      have shape := separated_cons first rows []
      rw [List.append_nil] at shape
      have positive := h first List.mem_cons_self
      have others := ih fun words member => h words (List.mem_cons_of_mem _ member)
      rw [shape]
      cases rows with
      | nil => simpa [behind] using Nat.succ_le_of_lt positive
      | cons second rows =>
          simp only [behind, List.length_cons, List.append_nil, List.length_append] at others ⊢
          omega

end Reader
end Surface
end Clausal
