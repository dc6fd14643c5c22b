import Clausal.Proofs.Syntax.Precedence
import Clausal.Proofs.Syntax.Spans

/-!
# Passing a row of elements

A form is read from its first token on, and at every point in between the cursor has passed a row of
elements: tokens of the form's own and parts that were read (`Cursor.Past`).  Each step of a reader makes
the row longer, and so has a rule that says by what (`Reader.Gives`).  Where a reader is begun in the middle
of a form, what it takes is added to the row of that form (`Reader.Takes`), and a whole node is added as one
part (`Reader.Reads`).
-/

namespace Clausal
namespace Surface

open Token (Kind)

/-! ## Rows of elements -/

section Rows

variable {elements more : List Element} {token : Token} {own : List Token} {node : Node} {run : List Token}

@[simp] theorem tokensAlong_nil : tokensAlong [] = [] := rfl

@[simp] theorem tokensAlong_append :
    tokensAlong (elements ++ more) = tokensAlong elements ++ tokensAlong more := List.flatMap_append

@[simp] theorem tokensAlong_own : tokensAlong (.own token :: elements) = token :: tokensAlong elements := rfl

@[simp] theorem tokensAlong_part :
    tokensAlong (.part node run :: elements) = run ++ tokensAlong elements := rfl

@[simp] theorem tokensAlong_owns : tokensAlong (own.map .own) = own := by
  induction own with
  | nil => rfl
  | cons token own ih => simpa [tokensAlong, Element.tokens] using ih

@[simp] theorem partsAlong_nil : partsAlong [] = [] := rfl

@[simp] theorem partsAlong_append :
    partsAlong (elements ++ more) = partsAlong elements ++ partsAlong more := List.filterMap_append

@[simp] theorem partsAlong_own : partsAlong (.own token :: elements) = partsAlong elements := rfl

@[simp] theorem partsAlong_part : partsAlong (.part node run :: elements) = node :: partsAlong elements := rfl

theorem startOf_along (some : tokensAlong elements ≠ []) :
    startOf (tokensAlong (elements ++ more)) = startOf (tokensAlong elements) := by
  rw [tokensAlong_append, startOf_append some]

theorem ne_nil_of_tokensAlong (some : tokensAlong elements ≠ []) : elements ≠ [] := by
  rintro rfl
  exact some rfl

theorem firstKind_append (some : elements ≠ []) : firstKind (elements ++ more) = firstKind elements := by
  cases elements with
  | nil => exact absurd rfl some
  | cons first elements => rfl

theorem lastKind_append {kind : Kind} (last : lastKind more = some kind) :
    lastKind (elements ++ more) = some kind := by
  have nonempty : more ≠ [] := by
    rintro rfl
    cases last
  rwa [lastKind, List.getLast?_append_of_ne_nil _ nonempty]

theorem lastKind_own : lastKind (elements ++ [.own token]) = some token.kind := by
  rw [lastKind, List.getLast?_concat]
  rfl

theorem lastKind_part : lastKind (elements ++ [.part node run]) = none := by
  rw [lastKind, List.getLast?_concat]
  rfl

@[simp] theorem partsAlong_owns : partsAlong (own.map .own) = [] := by
  simp [partsAlong, Element.node?]

end Rows

/-- Since it stood behind `before` in the text, the cursor has passed a row of elements. -/
structure Cursor.Past (layout : Layout) (text before : List Token) (elements : List Element) (c : Cursor) :
    Prop where
  stands : TokensStand layout.lines text
  covered : ∀ part run, .part part run ∈ elements → part.Covers layout.lines run
  tokens : text = before ++ tokensAlong elements ++ c.tokens
  passed : c.passed = stopOf (before ++ tokensAlong elements)

namespace Cursor

variable {layout : Layout} {text before : List Token} {elements more : List Element} {c c' : Cursor}
  {token : Token} {node : Node} {run : List Token}

theorem Past.begins (past : c.Past layout text before elements) :
    c.Past layout text (before ++ tokensAlong elements) [] where
  stands := past.stands
  covered := nofun
  tokens := by simpa using past.tokens
  passed := by simpa using past.passed

theorem Past.append (past : c.Past layout text before elements)
    (later : c'.Past layout text (before ++ tokensAlong elements) more) :
    c'.Past layout text before (elements ++ more) where
  stands := past.stands
  covered part run member := by
    rcases List.mem_append.mp member with member | member
    · exact past.covered part run member
    · exact later.covered part run member
  tokens := by simpa using later.tokens
  passed := by simpa using later.passed

/-- The tokens of a row stand in order. -/
theorem Past.stand (past : c.Past layout text before elements) :
    TokensStand layout.lines (tokensAlong elements) := by
  apply past.stands.sublist
  rw [past.tokens, List.append_assoc]
  exact (List.sublist_append_left _ _).trans (List.sublist_append_right _ _)

/-- A row whose tokens a node covers is a single part. -/
theorem Past.part (past : c.Past layout text before elements)
    (covers : node.Covers layout.lines (tokensAlong elements)) :
    c.Past layout text before [.part node (tokensAlong elements)] where
  stands := past.stands
  covered part run member := by
    rw [List.mem_singleton] at member
    cases member
    exact covers
  tokens := by simpa using past.tokens
  passed := by simpa using past.passed

/-- Moving on adds the token at the cursor, whichever element it is. -/
theorem Past.advance (past : c.Past layout text before elements) (found : c.current = some token)
    {element : Element} (same : element.tokens = [token])
    (covered : ∀ part run, element = .part part run → part.Covers layout.lines run) :
    c.advance.Past layout text before (elements ++ [element]) := by
  have only : tokensAlong [element] = [token] := by simp [tokensAlong, same]
  refine ⟨past.stands, ?_, ?_, ?_⟩
  · intro part run member
    rcases List.mem_append.mp member with member | member
    · exact past.covered part run member
    · exact covered part run (List.mem_singleton.mp member).symm
  · rw [past.tokens, tokens_advance found, tokensAlong_append, only]
    simp
  · rw [passed_advance found, tokensAlong_append, only, ← List.append_assoc,
      stopOf_append (List.cons_ne_nil _ _)]
    rfl

theorem Past.own (past : c.Past layout text before elements) (found : c.current = some token) :
    c.advance.Past layout text before (elements ++ [.own token]) :=
  past.advance found rfl nofun

/-- The token at the cursor has the span of a run of one token. -/
theorem Past.span_current (past : c.Past layout text before elements) (found : c.current = some token) :
    token.span = spanOf layout.lines [token] := by
  apply past.stands.placed token
  rw [past.tokens, tokens_of_current found]
  simp

theorem Past.skip (past : c.Past layout text before elements) (p : Kind → Bool) :
    ∃ own : List Token, (c.skip p).Past layout text before (elements ++ own.map .own) := by
  unfold Cursor.skip
  generalize c.remaining = limit
  induction limit generalizing c elements with
  | zero => exact ⟨[], by simpa [skipUpTo] using past⟩
  | succ limit ih =>
      rw [skipUpTo]
      split
      next sees =>
          -- Each round adds the token that it passes.
          rcases Option.isSome_iff_exists.mp (isSome_of_seesAny sees) with ⟨token, found⟩
          rcases ih (past.own found) with ⟨own, later⟩
          exact ⟨token :: own, by simpa using later⟩
      next => exact ⟨[], by simpa using past⟩

theorem exists_of_sees {kind : Kind} (sees : c.sees kind = true) :
    ∃ token, c.current = some token ∧ token.kind = kind := by
  cases found : c.current with
  | none => simp [Cursor.sees, kind?, found] at sees
  | some token => exact ⟨token, rfl, by simpa [Cursor.sees, kind?, found] using sees⟩

end Cursor

/-! ## Readers -/

namespace Reader

variable {α β : Type}

/-- From a cursor that has passed some elements, a reader ends behind a row of elements that has a given
property together with the result. -/
def Gives (layout : Layout) (text before : List Token) (elements : List Element) (c : Cursor) (x : Reader α)
    (Q : List Element → α → Prop) : Prop :=
  c.Past layout text before elements →
    Ensures MayHalt c x fun a c' => ∃ all, c'.Past layout text before all ∧ Q all a

/-- Wherever it is begun, a reader takes a row of elements that has a given property. -/
def Takes (layout : Layout) (text : List Token) (x : Reader α) (Q : List Element → α → Prop) : Prop :=
  ∀ before c, Gives layout text before [] c x Q

/-- What a reader gives is a node that covers what the reader took. -/
def Reads (layout : Layout) (text : List Token) (x : Reader α) (node : α → Node) : Prop :=
  Takes layout text x fun all a => (node a).Covers layout.lines (tokensAlong all)

section Rules

variable {layout : Layout} {text before : List Token} {elements : List Element} {c : Cursor}
  {x : Reader α} {f : α → Reader β} {P Q : List Element → α → Prop} {R : List Element → β → Prop}
  {kind : Kind} {node : α → Node}

theorem Gives.bind (first : Gives layout text before elements c x P)
    (next : ∀ a c' all, P all a → Gives layout text before all c' (f a) R) :
    Gives layout text before elements c (x >>= f) R :=
  fun past => (first past).bind fun a c' ⟨all, past', holds⟩ => next a c' all holds past'

theorem Gives.mono (first : Gives layout text before elements c x P) (imp : ∀ all a, P all a → Q all a) :
    Gives layout text before elements c x Q :=
  fun past => (first past).mono fun a _ ⟨all, past', holds⟩ => ⟨all, past', imp all a holds⟩

theorem Gives.of_run {a : α} {c' : Cursor} (past : c.Past layout text before elements)
    (h : x.run c = .ok a c') (gives : Gives layout text before elements c x Q) :
    ∃ all, c'.Past layout text before all ∧ Q all a := (gives past).of_run h

theorem Gives.of_past (h : c.Past layout text before elements → Gives layout text before elements c x Q) :
    Gives layout text before elements c x Q := fun past => h past past

theorem Gives.pure {a : α} (holds : Q elements a) :
    Gives layout text before elements c (Pure.pure a) Q :=
  fun past => Ensures.pure ⟨elements, past, holds⟩

/-- A reader that is begun in the middle of a form adds what it takes to the row. -/
theorem Takes.bind (first : Takes layout text x P)
    (next : ∀ a c' more, P more a → Gives layout text before (elements ++ more) c' (f a) R) :
    Gives layout text before elements c (x >>= f) R :=
  fun past => (first _ c past.begins).bind fun a c' ⟨more, past', holds⟩ =>
    next a c' more holds (past.append past')

/-- A row that a node covers is one part of the form around it. -/
theorem Gives.part (first : Gives layout text before elements c x fun all a =>
      (node a).Covers layout.lines (tokensAlong all))
    (next : ∀ a c' run, (node a).Covers layout.lines run →
      Gives layout text before [.part (node a) run] c' (f a) R) :
    Gives layout text before elements c (x >>= f) R :=
  fun past => (first past).bind fun a c' ⟨_, past', covers⟩ =>
    next a c' _ covers (past'.part covers)

theorem Reads.bind (first : Reads layout text x node)
    (next : ∀ a c' run, (node a).Covers layout.lines run →
      Gives layout text before (elements ++ [.part (node a) run]) c' (f a) R) :
    Gives layout text before elements c (x >>= f) R :=
  fun past => (first _ c past.begins).bind fun a c' ⟨_, past', covers⟩ =>
    next a c' _ covers (past.append (past'.part covers))

/-! ### Single steps -/

theorem gives_exhausted : Gives layout text before elements c (exhausted : Reader α) Q :=
  fun _ => .halt trivial

theorem gives_fail (error : ParseError) :
    Gives layout text before elements c (fail error : Reader α) Q := fun _ => .halt trivial

theorem gives_unexpected (expected : String) :
    Gives layout text before elements c (unexpected layout expected : Reader α) Q :=
  fun _ => Leads.unexpected fun _ => .single trivial

theorem Gives.get {f : Cursor → Reader β} (next : Gives layout text before elements c (f c) R) :
    Gives layout text before elements c (MonadState.get >>= f) R := fun past => Leads.get (next past)

theorem Gives.sees {f : Bool → Reader β} (next : Gives layout text before elements c (f (c.sees kind)) R) :
    Gives layout text before elements c (Reader.sees kind >>= f) R := fun past => Leads.sees (next past)

theorem Gives.currentSpan {f : Span → Reader β}
    (next : Gives layout text before elements c (f (c.current.elim layout.endSpan (·.span))) R) :
    Gives layout text before elements c (Reader.currentSpan layout >>= f) R :=
  fun past => Leads.currentSpan (next past)

theorem Gives.skipNewlines {f : Unit → Reader β}
    (next : ∀ c' (own : List Token), Gives layout text before (elements ++ own.map .own) c' (f ()) R) :
    Gives layout text before elements c (Reader.skipNewlines >>= f) R := by
  intro past
  rcases past.skip (· == .newline) with ⟨own, later⟩
  exact Leads.skipNewlines (next _ own later)

theorem Gives.skipSeparators {f : Unit → Reader β}
    (next : ∀ c' (own : List Token), Gives layout text before (elements ++ own.map .own) c' (f ()) R) :
    Gives layout text before elements c (Reader.skipSeparators >>= f) R := by
  intro past
  rcases past.skip Kind.isSeparator with ⟨own, later⟩
  exact Leads.skipSeparators (next _ own later)

theorem Gives.advance {f : Unit → Reader β} {token : Token} (found : c.current = some token)
    (next : ∀ c', Gives layout text before (elements ++ [.own token]) c' (f ()) R) :
    Gives layout text before elements c (Reader.advance >>= f) R :=
  fun past => Leads.advance (next c.advance (past.own found))

/-- A token that was seen is taken. -/
theorem Gives.advance_seen {f : Unit → Reader β} (sees : c.sees kind = true)
    (next : ∀ c' token, token.kind = kind →
      Gives layout text before (elements ++ [.own token]) c' (f ()) R) :
    Gives layout text before elements c (Reader.advance >>= f) R := by
  rcases Cursor.exists_of_sees sees with ⟨token, found, same⟩
  exact .advance found fun c' => next c' token same

/-- A token that is taken is the element that it is said to be. -/
theorem Gives.takeAs {expected : String} {f : Token → Reader β} (element : Token → Element)
    (same : ∀ token, (element token).tokens = [token])
    (covered : ∀ token, token.kind = kind → token.span = spanOf layout.lines [token] →
      ∀ part run, element token = .part part run → part.Covers layout.lines run)
    (next : ∀ token c', token.kind = kind →
      Gives layout text before (elements ++ [element token]) c' (f token) R) :
    Gives layout text before elements c (Reader.takeAs layout kind expected >>= f) R := by
  intro past
  have takes : Ensures MayHalt c (Reader.takeAs layout kind expected) fun token c' =>
      token.kind = kind ∧ c'.Past layout text before (elements ++ [element token]) := by
    refine Leads.takeAs (fun token found kind => .single ⟨kind, ?_⟩) fun _ _ => .single trivial
    exact past.advance found (same token) (covered token kind (past.span_current found))
  exact takes.bind fun token c' ⟨kind, past'⟩ => next token c' kind past'

theorem Gives.expect {f : Token → Reader β}
    (next : ∀ token c', token.kind = kind →
      Gives layout text before (elements ++ [.own token]) c' (f token) R) :
    Gives layout text before elements c (Reader.expect layout kind >>= f) R :=
  .takeAs .own (fun _ => rfl) (fun _ _ _ => nofun) next

theorem Gives.name {what : String} {f : Token → Reader β}
    (next : ∀ token c', token.kind = .identifier →
      Gives layout text before (elements ++ [.own token]) c' (f token) R) :
    Gives layout text before elements c (Reader.name layout what >>= f) R :=
  .takeAs .own (fun _ => rfl) (fun _ _ _ => nofun) next

/-- The span of a form goes over all tokens of its row. -/
theorem Gives.spanFrom {start : Nat} {f : Span → Reader β} (some : tokensAlong elements ≠ [])
    (begins : start = startOf (tokensAlong elements))
    (next : Gives layout text before elements c (f (spanOf layout.lines (tokensAlong elements))) R) :
    Gives layout text before elements c (Reader.spanFrom layout start >>= f) R := by
  intro past
  -- The span ends with the token that was passed last, which is not in front of the start.
  have inside := past.stand.startOf_lt_stopOf some
  have stop : max c.passed start = stopOf (tokensAlong elements) := by
    rw [past.passed, stopOf_append some, begins]
    omega
  refine Leads.spanFrom ?_
  rw [stop, begins]
  exact next past

theorem Gives.pure_bind {a : α} (next : Gives layout text before elements c (f a) R) :
    Gives layout text before elements c (Pure.pure a >>= f) R := next

/-- The passed row is taken for one part that covers its tokens. -/
theorem Gives.relabel {whole : Node}
    (covers : c.Past layout text before elements → whole.Covers layout.lines (tokensAlong elements))
    (next : ∀ run, whole.Covers layout.lines run → Gives layout text before [.part whole run] c x Q) :
    Gives layout text before elements c x Q :=
  fun past => next _ (covers past) (past.part (covers past))

/-- A form is read when its parts and its first and last tokens are what its node asks for. -/
theorem Gives.form {a : α} (some : elements ≠ []) (parts : partsAlong elements = (node a).parts)
    (opening : firstKind elements = (node a).opening)
    (closing : lastKind elements ∈ (node a).closings)
    (span : (node a).span = spanOf layout.lines (tokensAlong elements)) :
    Gives layout text before elements c (Pure.pure a)
      fun all a => (node a).Covers layout.lines (tokensAlong all) :=
  .of_past fun past => .pure (.form some parts past.covered opening closing span)

/-- A form that is given the span of what was read since `start`. -/
theorem Gives.spanned {start : Nat} {form : Span → α} (some : tokensAlong elements ≠ [])
    (begins : start = startOf (tokensAlong elements))
    (parts : ∀ span, partsAlong elements = (node (form span)).parts)
    (opening : ∀ span, firstKind elements = (node (form span)).opening)
    (closing : ∀ span, lastKind elements ∈ (node (form span)).closings)
    (span : ∀ span, (node (form span)).span = span) :
    Gives layout text before elements c (do return form (← Reader.spanFrom layout start))
      fun all a => (node a).Covers layout.lines (tokensAlong all) := by
  exact .spanFrom some begins
    (.form (ne_nil_of_tokensAlong some) (parts _) (opening _) (closing _) (span _))

/-- A node that was read is the one part of its row. -/
theorem Reads.takes (reads : Reads layout text x node) :
    Takes layout text x fun all a => partsAlong all = [node a] := by
  intro before c past
  exact (reads before c past).mono fun a _ ⟨_, past', covers⟩ => ⟨_, past'.part covers, rfl⟩

/-- What is only wrapped covers the same tokens. -/
theorem Reads.wrap {wrapped : α → β} {node' : β → Node} (reads : Reads layout text x node)
    (same : ∀ a, node' (wrapped a) = node a) :
    Gives layout text before [] c (do return wrapped (← x))
      fun all b => (node' b).Covers layout.lines (tokensAlong all) := by
  refine (reads before c).bind fun a c' all covers => .pure ?_
  rw [same]
  exact covers

/-- An expression is a statement over the same tokens. -/
theorem Reads.stmt {x : Reader Expr} (reads : Reads layout text x .expr) :
    Reads layout text x fun e => .stmt (.expr e) := by
  intro before c past
  refine (reads before c past).mono fun e c' ⟨all, past', covers⟩ => ?_
  -- The row of the statement is the expression as its one part.
  have whole := past'.part covers
  refine ⟨_, whole, .form (List.cons_ne_nil _ _) rfl whole.covered rfl ?_ ?_⟩
  · exact List.mem_singleton_self _
  · rw [tokensAlong_part, tokensAlong_nil, List.append_nil]
    exact covers.span_eq

end Rules

end Reader
end Surface
end Clausal
