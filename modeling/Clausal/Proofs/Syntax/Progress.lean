import Clausal.Proofs.Syntax.Precedence

/-!
# Reading expressions makes progress

A step limit above the number of tokens ahead is never felt.  The argument has no limit in it: it
speaks of a family of readers, one for every limit that is large enough, and shows that all of them
do the same.  `Ends n c x` says that the readers `x` end alike from `c`, with a result behind at
least `n` tokens or with a fault.  `Rounds n again c x` is said of one round of a loop: it ends the
loop, or goes on with the rounds `again` behind at least `n` tokens.  A loop whose every round takes
a token ends (`Ends.of_rounds`), and nesting ends because a nested expression always has fewer
tokens ahead than the one around it (`expressionAt_ends`).
-/

namespace Clausal
namespace Surface

open Token (Kind)

/-! ## Tokens passed -/

namespace Cursor

/-- The second cursor is reached from the first by moving on from at least `n` tokens. -/
inductive Passes : Nat → Cursor → Cursor → Prop
  | here (c : Cursor) : Passes 0 c c
  | on {n : Nat} {c c' : Cursor} (token : c.current.isSome = true)
      (later : Passes (n - 1) c.advance c') : Passes n c c'

variable {n m : Nat} {c c' c'' : Cursor} {p : Kind → Bool}

/-- Every token that is passed is one token less ahead. -/
theorem Passes.remaining_le (passes : Passes n c c') : c'.remaining + n ≤ c.remaining := by
  induction passes with
  | here => exact Nat.le_refl _
  | on token _ ih =>
      have fewer := remaining_advance token
      omega

theorem Passes.mono (passes : Passes n c c') (le : m ≤ n) : Passes m c c' := by
  induction passes generalizing m with
  | here =>
      obtain rfl := Nat.le_zero.mp le
      exact .here _
  | on token _ ih => exact .on token (ih (Nat.sub_le_sub_right le 1))

theorem Passes.trans (passes : Passes n c c') (more : Passes m c' c'') : Passes (n + m) c c'' := by
  induction passes with
  | here => exact more.mono (Nat.le_of_eq (Nat.zero_add m))
  | on token _ ih => exact .on token ((ih more).mono (by omega))

/-- A cursor that is reached from another one was moved on to. -/
theorem Passes.eq_or_advance (passes : Passes n c c') : c' = c ∨ ∃ d : Cursor, c' = d.advance := by
  induction passes with
  | here => exact .inl rfl
  | @on _ c _ _ _ ih =>
      rcases ih with rfl | moved
      · exact .inr ⟨c, rfl⟩
      · exact .inr moved

/-- At the end of a text nothing is left. -/
theorem rest_advance (ended : c.advance.current = none) : c.advance.rest = [] := by
  have nothing : ∀ lexemes, (nextToken lexemes).2.1 = none → (nextToken lexemes).2.2 = [] := by
    intro lexemes none
    induction lexemes with
    | nil => rfl
    | cons lexeme rest ih =>
        cases lexeme with
        | ok token => cases none
        | error e => exact ih none
  exact nothing c.rest ended

theorem isSome_of_seesAny (sees : c.seesAny p = true) : c.current.isSome = true := by
  cases found : c.current with
  | none => simp [seesAny, kind?, found] at sees
  | some token => rfl

theorem isSome_of_sees {kind : Kind} (sees : c.sees kind = true) : c.current.isSome = true := by
  cases found : c.current with
  | none => simp [Cursor.sees, kind?, found] at sees
  | some token => rfl

theorem isSome_of_kind? {kind : Kind} (found : c.kind? = some kind) : c.current.isSome = true := by
  obtain ⟨token, found, -⟩ := Option.map_eq_some_iff.mp found
  exact found ▸ rfl

theorem passes_advance (token : c.current.isSome = true) : Passes 1 c c.advance :=
  .on token (.here _)

theorem passes_skip (p : Kind → Bool) (c : Cursor) : Passes 0 c (c.skip p) := by
  have upTo : ∀ limit c, Passes 0 c (skipUpTo p limit c) := by
    intro limit
    induction limit with
    | zero => exact .here
    | succ limit ih =>
        intro c
        simp only [skipUpTo]
        split
        next sees => exact .on (isSome_of_seesAny sees) (ih _)
        next => exact .here c
  exact upTo _ c

/-- Skipping stops of itself, never because its limit is reached. -/
theorem seesAny_skip (p : Kind → Bool) (c : Cursor) : (c.skip p).seesAny p = false := by
  -- The limit is the number of tokens ahead, and each step takes one of them.
  have upTo : ∀ limit c, c.remaining ≤ limit → (skipUpTo p limit c).seesAny p = false := by
    intro limit
    induction limit with
    | zero =>
        intro c none
        cases found : c.current with
        | none => simp [skipUpTo, seesAny, kind?, found]
        | some token => simp [remaining, found] at none
    | succ limit ih =>
        intro c le
        simp only [skipUpTo]
        split
        next sees =>
            have fewer := remaining_advance (isSome_of_seesAny sees)
            exact ih _ (by omega)
        next unseen => simpa using unseen
  exact upTo _ c (Nat.le_refl _)

end Cursor

/-! ## Readers that end -/

namespace Reader

variable {ι α β σ : Type} {n k : Nat} {c c' : Cursor}

/-- An outcome from `c` that is a result behind at least `n` tokens, or a fault. -/
def Ended (n : Nat) (c : Cursor) : EStateM.Result Halt Cursor α → Prop
  | .ok _ c' => c.Passes n c'
  | .error (.fault _) c' => c.Passes 0 c'
  | .error .exhausted _ => False

/-- All readers of a family end from `c` with one outcome. -/
def Ends (n : Nat) (c : Cursor) (x : ι → Reader α) : Prop := Leads c x (Alike (Ended n c))

/-- All readers of a family do one round of a loop alike: they end from `c` with one outcome, or they
all go on as `again` behind at least `n` tokens. -/
def Rounds (n : Nat) (again : ι → σ → Reader α) (c : Cursor) (x : ι → Reader α) : Prop :=
  Leads c x fun outcomes => Alike (Ended 0 c) outcomes ∨
    ∃ s c', c.Passes n c' ∧ ∀ i, outcomes i = again i s c'

theorem Ended.after {m : Nat} {outcome : EStateM.Result Halt Cursor α} (ended : Ended m c' outcome)
    (passes : c.Passes k c') (le : n ≤ k + m) : Ended n c outcome := by
  cases outcome with
  | ok a c'' => exact (passes.trans ended).mono le
  | error halt c'' =>
      cases halt with
      | fault e => exact (passes.trans ended).mono (Nat.zero_le _)
      | exhausted => exact ended

/-- A reader that stopped has nothing more to take. -/
theorem Ended.of_error {m : Nat} {halt : Halt}
    (ended : Ended (α := α) m c (.error halt c')) : Ended (α := β) n c (.error halt c') := by
  cases halt with
  | fault e => exact ended
  | exhausted => exact ended

/-! ### Single steps -/

theorem Ends.pure (a : α) : Ends 0 c (fun _ : ι => (Pure.pure a : Reader α)) :=
  Leads.pure (.single (.here c))

theorem Ends.fail (e : ParseError) : Ends n c (fun _ : ι => (Reader.fail e : Reader α)) :=
  Leads.fail (.single (.here c))

theorem Ends.advance (token : c.current.isSome = true) : Ends 1 c (fun _ : ι => Reader.advance) :=
  ⟨.ok () c.advance, Cursor.passes_advance token, fun _ => rfl⟩

theorem Ends.skipNewlines : Ends 0 c (fun _ : ι => Reader.skipNewlines) :=
  ⟨.ok () (c.skip (· == .newline)), Cursor.passes_skip _ c, fun _ => rfl⟩

theorem Ends.skipSeparators : Ends 0 c (fun _ : ι => Reader.skipSeparators) :=
  ⟨.ok () (c.skip Kind.isSeparator), Cursor.passes_skip _ c, fun _ => rfl⟩

section Steps

variable {x : ι → Reader α} {f : ι → α → Reader β} {again : ι → σ → Reader β}

/-- What follows a reader begins behind the tokens that the reader took. -/
theorem Ends.bind (first : Ends k c x)
    (next : ∀ a c', c'.remaining + k ≤ c.remaining → Ends (n - k) c' (fun i => f i a)) :
    Ends n c (fun i => x i >>= f i) := by
  refine Leads.bind first (fun a c' passes => ?_) fun halt c' ended => .single ended.of_error
  refine Leads.mono (next a c' (Cursor.Passes.remaining_le passes)) ?_
  rintro outcomes ⟨outcome, later, same⟩
  exact ⟨outcome, later.after passes (by omega), same⟩

theorem Rounds.bind (first : Ends k c x)
    (next : ∀ a c', c'.remaining + k ≤ c.remaining → Rounds (n - k) again c' (fun i => f i a)) :
    Rounds n again c (fun i => x i >>= f i) := by
  refine Leads.bind first (fun a c' passes => ?_) fun halt c' ended => .inl (.single ended.of_error)
  refine Leads.mono (next a c' (Cursor.Passes.remaining_le passes)) ?_
  rintro outcomes (⟨outcome, later, same⟩ | ⟨s, c'', more, same⟩)
  · exact .inl ⟨outcome, later.after passes (Nat.zero_le _), same⟩
  · exact .inr ⟨s, c'', (Cursor.Passes.trans passes more).mono (by omega), same⟩

theorem Rounds.leave {again : ι → σ → Reader α} (ends : Ends 0 c x) : Rounds n again c x :=
  .inl ends

end Steps

theorem Rounds.goOn {again : ι → σ → Reader α} (s : σ) : Rounds 0 again c (fun i => again i s) :=
  .inr ⟨s, c, .here c, fun _ => rfl⟩

/-- A limit above a number is a successor. -/
theorem exists_succ {rounds : ι → Nat} (enough : ∀ i, n < rounds i) :
    ∃ fewer : ι → Nat, rounds = fun i => fewer i + 1 :=
  ⟨fun i => rounds i - 1, funext fun i => (Nat.sub_add_cancel (Nat.one_le_of_lt (enough i))).symm⟩

/-- A loop whose every round takes a token ends, whatever number of rounds it has beyond the number
of tokens ahead. -/
theorem Ends.of_rounds (loop : ι → Nat → σ → Reader α) {bound : Nat}
    (step : ∀ (rounds : ι → Nat) s c, c.remaining < bound →
      Rounds 1 (fun i => loop i (rounds i)) c (fun i => loop i (rounds i + 1) s))
    {rounds : ι → Nat} {s : σ} (below : c.remaining < bound) (enough : ∀ i, bound < rounds i) :
    Ends 0 c (fun i => loop i (rounds i) s) := by
  -- From round to round the limit falls by one, and the number of tokens ahead by at least one.
  replace enough : ∀ i, c.remaining < rounds i := fun i => Nat.lt_trans below (enough i)
  induction ahead : c.remaining using Nat.strongRecOn generalizing c rounds s with
  | ind ahead ih =>
      subst ahead
      obtain ⟨fewer, rfl⟩ := exists_succ enough
      rcases step fewer s c below with ends | ⟨s', c', passes, same⟩
      · exact ends
      · have taken := passes.remaining_le
        have left : ∀ i, c'.remaining < fewer i := fun i =>
          Nat.lt_of_lt_of_le taken (Nat.le_of_lt_succ (enough i))
        obtain ⟨outcome, ended, alike⟩ := ih c'.remaining taken (by omega) left rfl
        exact ⟨outcome, ended.after passes (Nat.zero_le _), fun i => (same i).trans (alike i)⟩

/-! ## Tokens and delimited forms -/

theorem unexpected_ends (layout : Layout) (expected : String) :
    Ends n c (fun _ : ι => (unexpected layout expected : Reader α)) :=
  Leads.unexpected fun _ => .single (.here c)

theorem takeAs_ends (layout : Layout) (kind : Kind) (expected : String) :
    Ends 1 c (fun _ : ι => takeAs layout kind expected) :=
  Leads.takeAs (fun _ found _ => .single (Cursor.passes_advance (found ▸ rfl)))
    fun _ _ => .single (.here c)

theorem expect_ends (layout : Layout) (kind : Kind) : Ends 1 c (fun _ : ι => expect layout kind) :=
  takeAs_ends layout kind _

theorem name_ends (layout : Layout) (what : String) : Ends 1 c (fun _ : ι => name layout what) :=
  takeAs_ends layout .identifier what

/-- Whatever is made of the span of a form once it is read. -/
theorem spanned_ends (layout : Layout) (start : Nat) (form : Span → α) :
    Ends 0 c (fun _ : ι => (do return form (← Reader.spanFrom layout start) : Reader α)) :=
  Leads.spanFrom (Ends.pure _)

/-- Readers of nested expressions that end alike and take a token wherever fewer than `bound` tokens
are ahead. -/
def Nested (bound : Nat) (sub : ι → Precedence → Reader Expr) : Prop :=
  ∀ least c, c.remaining < bound → Ends 1 c (fun i => sub i least)

/-- A round of a row reads a thing and a comma, or ends the row. -/
theorem row_rounds {item : ι → Reader α} (reads : ∀ c : Cursor, c.remaining < k → Ends 1 c item)
    (close : Kind) (rounds : ι → Nat) (items : List α) (below : c.remaining < k) :
    Rounds 1 (fun i => row (item i) close (rounds i)) c
      (fun i => row (item i) close (rounds i + 1) items) := by
  refine Rounds.bind .skipNewlines fun _ c₁ _ => Leads.sees (Leads.ite ?_ ?_)
  · exact fun _ => Rounds.leave (.pure items)
  · intro _
    refine Rounds.bind (reads c₁ (by omega)) fun next c₂ _ => ?_
    refine Rounds.bind .skipNewlines fun _ c₃ _ => Leads.sees (Leads.ite ?_ ?_)
    · intro comma
      refine Rounds.bind (.advance (Cursor.isSome_of_sees comma)) fun _ _ _ => ?_
      exact Rounds.goOn (items ++ [next])
    · exact fun _ => Rounds.leave (.pure (items ++ [next]))

section Forms

variable {layout : Layout} {bound : Nat} {limit : ι → Nat} {sub : ι → Precedence → Reader Expr}

theorem commaList_rounds (reads : Nested bound sub) (close : Kind) (rounds : ι → Nat)
    (items : List Expr) (below : c.remaining < bound) :
    Rounds 1 (fun i => commaList (sub i) close (rounds i)) c
      (fun i => commaList (sub i) close (rounds i + 1) items) := by
  simpa only [funext (commaList_eq_row close _), commaList_eq_row] using
    row_rounds (reads .lowest) close rounds items below

theorem commaList_ends (reads : Nested bound sub) (close : Kind) (enough : ∀ i, bound < limit i)
    (items : List Expr) (below : c.remaining < bound) :
    Ends 0 c (fun i => commaList (sub i) close (limit i) items) :=
  Ends.of_rounds (fun i => commaList (sub i) close)
    (fun rounds s _ => commaList_rounds reads close rounds s) below enough

theorem delimited_ends (reads : Nested bound sub) (enough : ∀ i, bound < limit i)
    (opening closing : Kind) (start : Token → Nat) (form : Span → List Expr → Expr)
    (le : c.remaining ≤ bound) :
    Ends 1 c (fun i => delimited layout (limit i) (sub i) opening closing start form) := by
  refine Ends.bind (expect_ends layout opening) fun token c₁ _ => ?_
  refine Ends.bind (commaList_ends reads closing enough [] (by omega)) fun items _ _ => ?_
  refine Ends.bind (expect_ends layout closing) fun _ _ _ => ?_
  exact spanned_ends layout (start token) fun span => form span items

/-- A round of a list reads an item and a comma, or ends the list, with a tail or without. -/
theorem listItems_rounds (reads : Nested bound sub) (rounds : ι → Nat) (items : List Expr)
    (below : c.remaining < bound) :
    Rounds 1 (fun i => listItems (sub i) (rounds i)) c
      (fun i => listItems (sub i) (rounds i + 1) items) := by
  refine Rounds.bind .skipNewlines fun _ c₁ _ => Leads.sees (Leads.ite ?_ ?_)
  · exact fun _ => Rounds.leave (.pure (items, none))
  · intro _
    refine Rounds.bind (reads .lowest c₁ (by omega)) fun item c₂ _ => ?_
    refine Rounds.bind .skipNewlines fun _ c₃ _ => Leads.sees (Leads.ite ?_ ?_)
    -- Behind a bar stands the tail, with which the list ends.
    · intro bar
      refine Rounds.leave (Ends.bind (Ends.advance (Cursor.isSome_of_sees bar)) ?_)
      refine fun _ c₄ _ => Ends.bind .skipNewlines fun _ c₅ _ => ?_
      refine Ends.bind (reads .lowest c₅ (by omega)) fun tail _ _ => ?_
      refine Ends.bind .skipNewlines fun _ _ _ => ?_
      exact .pure (items ++ [item], some tail)
    · intro _
      refine Leads.sees (Leads.ite (fun comma => ?_) fun _ => ?_)
      · refine Rounds.bind (.advance (Cursor.isSome_of_sees comma)) fun _ _ _ => ?_
        exact Rounds.goOn (items ++ [item])
      · exact Rounds.leave (.pure (items ++ [item], none))

theorem list_ends (reads : Nested bound sub) (enough : ∀ i, bound < limit i)
    (le : c.remaining ≤ bound) : Ends 1 c (fun i => list layout (limit i) (sub i)) := by
  refine Ends.bind (expect_ends layout .leftBracket) fun opening c₁ _ => ?_
  have items : Ends 0 c₁ (fun i => listItems (sub i) (limit i) []) :=
    Ends.of_rounds (fun i => listItems (sub i)) (fun rounds s _ => listItems_rounds reads rounds s) (by omega)
      enough
  refine Ends.bind items fun found _ _ => ?_
  refine Ends.bind (expect_ends layout .rightBracket) fun _ _ _ => ?_
  refine Leads.spanFrom ?_
  cases found.2 with
  | none => exact Ends.pure _
  | some tail => exact Ends.pure _

theorem mapEntry_ends (reads : Nested bound sub) (below : c.remaining < bound) :
    Ends 1 c (fun i => mapEntry layout (sub i)) := by
  refine Leads.get (Leads.ite (fun _ => ?_) fun _ => ?_)
  -- A name in front of a colon is short for an atom.
  · refine Ends.bind (name_ends layout "map key") fun key c₁ _ => ?_
    refine Ends.bind (expect_ends layout .colon) fun _ c₂ _ => ?_
    refine Ends.bind .skipNewlines fun _ c₃ _ => ?_
    refine Ends.bind (reads .lowest c₃ (by omega)) fun value _ _ => ?_
    exact .pure (Expr.atom key.span key.text, value)
  · refine Ends.bind (reads .or c below) fun key c₁ _ => ?_
    refine Ends.bind .skipNewlines fun _ c₂ _ => ?_
    refine Ends.bind (expect_ends layout .fatArrow) fun _ c₃ _ => ?_
    refine Ends.bind .skipNewlines fun _ c₄ _ => ?_
    refine Ends.bind (reads .lowest c₄ (by omega)) fun value _ _ => ?_
    exact .pure (key, value)

theorem mapEntries_rounds (reads : Nested bound sub) (rounds : ι → Nat)
    (entries : List (Expr × Expr)) (below : c.remaining < bound) :
    Rounds 1 (fun i => mapEntries layout (sub i) (rounds i)) c
      (fun i => mapEntries layout (sub i) (rounds i + 1) entries) := by
  simpa only [funext (mapEntries_eq_row _), mapEntries_eq_row] using
    row_rounds (fun _ => mapEntry_ends reads) .rightBrace rounds entries below

theorem map_ends (reads : Nested bound sub) (enough : ∀ i, bound < limit i)
    (le : c.remaining ≤ bound) : Ends 1 c (fun i => map layout (limit i) (sub i)) := by
  refine Ends.bind (expect_ends layout .percentBrace) fun opening c₁ _ => ?_
  have entries : Ends 0 c₁ (fun i => mapEntries layout (sub i) (limit i) []) :=
    Ends.of_rounds (fun i => mapEntries layout (sub i))
      (fun rounds s _ => mapEntries_rounds reads rounds s) (by omega) enough
  refine Ends.bind entries fun found _ _ => ?_
  refine Ends.bind (expect_ends layout .rightBrace) fun _ _ _ => ?_
  exact spanned_ends layout _ fun span => Expr.map span found

/-! ## Blocks and conditionals -/

theorem statement_ends (reads : Nested bound sub) (below : c.remaining < bound) :
    Ends 1 c (fun i => statement layout (sub i)) := by
  refine Leads.sees (Leads.ite (fun _ => ?_) fun _ => ?_)
  · refine Ends.bind (expect_ends layout .kwLet) fun opening c₁ _ => ?_
    refine Ends.bind (name_ends layout "binding name") fun target c₂ _ => ?_
    refine Ends.bind (expect_ends layout .equals) fun _ c₃ _ => ?_
    refine Ends.bind .skipNewlines fun _ c₄ _ => ?_
    refine Ends.bind (reads .lowest c₄ (by omega)) fun value _ _ => ?_
    exact spanned_ends layout _ fun span => Stmt.bind span target.text value
  · exact Ends.bind (reads .lowest c below) fun _ _ _ => .pure _

/-- A round of a block reads an entry that is properly ended, or ends the block. -/
theorem statements_rounds (reads : Nested bound sub) (rounds : ι → Nat) (stmts : List Stmt)
    (below : c.remaining < bound) :
    Rounds 1 (fun i => statements layout (sub i) (rounds i)) c
      (fun i => statements layout (sub i) (rounds i + 1) stmts) := by
  refine Rounds.bind .skipSeparators fun _ c₁ _ => Leads.sees (Leads.get (Leads.ite ?_ ?_))
  · exact fun _ => Rounds.leave (.pure stmts)
  · intro _
    refine Rounds.bind (statement_ends reads (by omega)) fun stmt c₂ _ => ?_
    refine Leads.sees (Leads.get (Leads.ite (fun _ => ?_) fun _ => ?_))
    · exact Rounds.goOn (stmts ++ [stmt])
    · exact Rounds.leave (unexpected_ends layout _)

theorem block_ends (reads : Nested bound sub) (enough : ∀ i, bound < limit i)
    (le : c.remaining ≤ bound) : Ends 1 c (fun i => block layout (limit i) (sub i)) := by
  refine Ends.bind (expect_ends layout .leftBrace) fun _ c₁ _ => ?_
  have entries : Ends 0 c₁ (fun i => statements layout (sub i) (limit i) []) :=
    Ends.of_rounds (fun i => statements layout (sub i))
      (fun rounds s _ => statements_rounds reads rounds s) (by omega) enough
  refine Ends.bind entries fun stmts _ _ => ?_
  refine Ends.bind (expect_ends layout .rightBrace) fun _ _ _ => ?_
  exact .pure stmts

/-- A chain of `else if` ends: each further conditional comes after the tokens of the one before. -/
theorem cond_ends (reads : Nested bound sub) (enough : ∀ i, bound < limit i) {rounds : ι → Nat}
    (le : c.remaining ≤ bound) (more : ∀ i, c.remaining < rounds i) :
    Ends 1 c (fun i => cond layout (limit i) (sub i) (rounds i)) := by
  -- The chain is no loop with a state: the conditional around takes what the next one gives.
  induction ahead : c.remaining using Nat.strongRecOn generalizing c rounds with
  | ind ahead ih =>
      subst ahead
      obtain ⟨fewer, rfl⟩ := exists_succ more
      refine Ends.bind (expect_ends layout .kwIf) fun opening c₁ _ => ?_
      refine Ends.bind (reads .or c₁ (by omega)) fun condition c₂ _ => ?_
      refine Ends.bind (block_ends reads enough (by omega)) fun thenBlock c₃ _ => ?_
      have closes : ∀ (c : Cursor) (elseBlock : List Stmt), Ends 0 c (fun _ : ι => do
          return Expr.cond (← Reader.spanFrom layout opening.span.start) condition thenBlock elseBlock) :=
        fun c elseBlock => spanned_ends layout _ fun span => Expr.cond span condition thenBlock elseBlock
      refine Leads.sees (Leads.ite (fun further => ?_) fun _ => ?_)
      · refine Ends.bind (.advance (Cursor.isSome_of_sees further)) fun _ c₄ _ => ?_
        refine Leads.sees (Leads.ite (fun _ => ?_) fun _ => ?_)
        · have less : c₄.remaining < c.remaining := by omega
          have chained := ih c₄.remaining less (by omega)
            (fun i => Nat.lt_of_lt_of_le less (Nat.le_of_lt_succ (more i))) rfl
          exact Ends.bind chained fun chain c₅ _ => closes c₅ [.expr chain]
        · exact Ends.bind (block_ends reads enough (by omega)) fun stmts c₅ _ => closes c₅ stmts
      · exact closes c₃ []

/-! ## Operands -/

theorem primary_ends (reads : Nested bound sub) (enough : ∀ i, bound < limit i)
    (le : c.remaining ≤ bound) : Ends 1 c (fun i => primary layout (limit i) (sub i)) := by
  apply Leads.get
  cases found : c.current with
  | none => exact unexpected_ends layout _
  | some token =>
      have here : c.current.isSome = true := found ▸ rfl
      cases leaf : leaf? token with
      | some result =>
          simp only [leaf]
          refine Ends.bind (.advance here) fun _ _ _ => ?_
          cases result with
          | ok e => exact .pure e
          | error e => exact .fail e
      | none =>
          simp only [leaf]
          cases kind : token.kind
          case leftParen => exact delimited_ends reads enough _ _ _ _ le
          case leftBracket => exact list_ends reads enough le
          case leftBrace => exact delimited_ends reads enough _ _ _ _ le
          case percentBrace => exact map_ends reads enough le
          case kwIf => exact cond_ends reads enough le fun i => by have := enough i; omega
          all_goals exact unexpected_ends layout _

theorem operand_ends (reads : Nested bound sub) (enough : ∀ i, bound < limit i)
    (le : c.remaining ≤ bound) : Ends 1 c (fun i => operand layout (limit i) (sub i)) := by
  refine Leads.currentSpan (Leads.sees (Leads.ite (fun minus => ?_) fun _ =>
    Leads.sees (Leads.ite (fun negation => ?_) ?_)))
  · refine Ends.bind (.advance (Cursor.isSome_of_sees minus)) fun _ c₂ _ => ?_
    refine Ends.bind (reads .unary c₂ (by omega)) fun e _ _ => ?_
    exact spanned_ends layout _ fun span => negated span e
  · refine Ends.bind (.advance (Cursor.isSome_of_sees negation)) fun _ c₂ _ => ?_
    refine Ends.bind (reads .unary c₂ (by omega)) fun e _ _ => ?_
    exact spanned_ends layout _ fun span => Expr.unary span .not e
  · exact fun _ => primary_ends reads enough (by omega)

/-! ## Operators -/

theorem fieldOf_ends (layout : Layout) (target : Expr) :
    Ends 1 c (fun _ : ι => fieldOf layout target) := by
  refine Ends.bind (expect_ends layout .dot) fun _ _ _ => ?_
  refine Ends.bind (name_ends layout "field name") fun field _ _ => ?_
  exact spanned_ends layout _ fun span => Expr.field span target field.text

/-- A round of the loop over operators takes a postfix form, or an operator and its right operand, or
ends the loop. -/
theorem continuation_rounds (reads : Nested bound sub) (enough : ∀ i, bound < limit i)
    (least : Precedence) (rounds : ι → Nat) (left : Expr) (below : c.remaining < bound) :
    Rounds 1 (fun i => continuation layout (limit i) (sub i) least (rounds i)) c
      (fun i => continuation layout (limit i) (sub i) least (rounds i + 1) left) := by
  by_cases stops : Stops least c.kind?
  · exact Rounds.leave ⟨.ok left c, .here c, fun i => continuation_of_stops stops⟩
  -- A call, an index, a field, or an operator that binds tightly enough.
  rcases continues_of_not_stops stops with next | next | next | ⟨kind, binding, next, operator, tight⟩
  · refine Leads.congr (fun i => continuation_of_leftParen next) ?_
    refine Rounds.bind (delimited_ends reads enough _ _ _ _ (by omega)) fun e _ _ => ?_
    exact Rounds.goOn e
  · refine Leads.congr (fun i => continuation_of_leftBracket next) ?_
    refine Rounds.bind (delimited_ends reads enough _ _ _ _ (by omega)) fun e _ _ => ?_
    exact Rounds.goOn e
  · refine Leads.congr (fun i => continuation_of_dot next) ?_
    exact Rounds.bind (fieldOf_ends layout left) fun e _ _ => Rounds.goOn e
  · refine Leads.congr (fun i => continuation_of_operator next operator tight) ?_
    refine Rounds.bind (.advance (Cursor.isSome_of_kind? next)) fun _ c₁ _ => ?_
    refine Rounds.bind .skipNewlines fun _ c₂ _ => ?_
    refine Rounds.bind (reads _ c₂ (by omega)) fun right _ _ => ?_
    exact Rounds.goOn (combine kind left right)

/-- Reading an expression depends on the nested ones only where fewer tokens are ahead. -/
theorem expressionWith_ends (reads : Nested bound sub) (enough : ∀ i, bound < limit i)
    (least : Precedence) (le : c.remaining ≤ bound) :
    Ends 1 c (fun i => expressionWith layout (limit i) (sub i) least) := by
  refine Ends.bind (operand_ends reads enough le) fun left c₁ _ => ?_
  exact Ends.of_rounds (fun i => continuation layout (limit i) (sub i) least)
    (fun rounds s _ => continuation_rounds reads enough least rounds s) (by omega) enough

end Forms

/-- Every step limit above the number of tokens ahead reads the same expression. -/
theorem expressionAt_ends (layout : Layout) (least : Precedence) {limit : ι → Nat}
    (enough : ∀ i, c.remaining < limit i) :
    Ends 1 c (fun i => expressionAt layout (limit i) least) := by
  -- A nested expression has one step less, and at least one token less ahead.
  induction ahead : c.remaining using Nat.strongRecOn generalizing c limit least with
  | ind ahead ih =>
      subst ahead
      obtain ⟨fewer, rfl⟩ := exists_succ enough
      have nested : Nested c.remaining (fun i => expressionAt layout (fewer i)) := by
        intro inner c' less
        exact ih c'.remaining less inner
          (fun i => Nat.lt_of_lt_of_le less (Nat.le_of_lt_succ (enough i))) rfl
      exact expressionWith_ends nested enough least (Nat.le_refl _)

end Reader

end Surface
end Clausal
