import Clausal.Surface.Cursor

/-!
# Outcomes of readers

What is shown of readers is shown of their outcomes: that limits are not felt, that given words are
read, which tokens were passed, what holds of every result.  The rules for the steps of a reader are the
same for all of these.  They are stated here once, for a whole family of readers that are started at one
cursor and for any property of their outcomes (`Leads`), and what is asked of the outcomes is a parameter.

A family with one outcome goes on as one reader does (`Leads.bind`).  For a single reader the usual
property is one of its result and the cursor behind it (`Ensures`), which may or may not allow that
there is no result.  Often it is one of the result alone, provided that something holds of the tokens that
are ahead (`Always`).
-/

namespace Clausal
namespace Surface

open Token (Kind Lexeme)

variable {ι α β : Type} {c c' : Cursor}

namespace Reader

/-! ## Runs of readers -/

theorem bind_eq_ok {x : Reader α} {f : α → Reader β} {b : β} :
    (x >>= f) c = .ok b c' ↔ ∃ a c₁, x c = .ok a c₁ ∧ f a c₁ = .ok b c' := by
  change EStateM.bind x f c = _ ↔ _
  unfold EStateM.bind
  cases h : x c <;> simp [and_assoc]

theorem bind_of_ok {x : Reader α} {f : α → Reader β} {a : α} (h : x c = .ok a c') :
    (x >>= f) c = f a c' := by
  change EStateM.bind x f c = f a c'
  rw [EStateM.bind, h]

theorem bind_of_error {x : Reader α} {f : α → Reader β} {halt : Halt} (h : x c = .error halt c') :
    (x >>= f) c = .error halt c' := by
  change EStateM.bind x f c = .error halt c'
  rw [EStateM.bind, h]

theorem pure_eq_ok {a b : α} : (pure a : Reader α) c = .ok b c' ↔ a = b ∧ c = c' := by
  change EStateM.Result.ok a c = .ok b c' ↔ _
  simp

theorem get_bind {f : Cursor → Reader β} : (get >>= f : Reader β) c = f c c := rfl

theorem fail_ne_ok {error : ParseError} {a : α} : (fail error : Reader α) c ≠ .ok a c' := nofun

/-! ## Properties of outcomes -/

/-- How a reader ends: with a result or without one, at some cursor. -/
abbrev Outcome (α : Type) := EStateM.Result Halt Cursor α

/-- From `c`, the outcomes of a family of readers have a property. -/
def Leads (c : Cursor) (x : ι → Reader α) (Q : (ι → Outcome α) → Prop) : Prop := Q fun i => x i c

/-- All outcomes of a family are one, which has a property. -/
def Alike (P : Outcome α → Prop) (outcomes : ι → Outcome α) : Prop :=
  ∃ outcome, P outcome ∧ ∀ i, outcomes i = outcome

section Rules

variable {x y : ι → Reader α} {f : ι → α → Reader β} {P : Outcome α → Prop}
  {Q R : (ι → Outcome α) → Prop} {S : (ι → Outcome β) → Prop}

theorem Leads.mono (h : Leads c x Q) (imp : ∀ outcomes, Q outcomes → R outcomes) : Leads c x R :=
  imp _ h

theorem Leads.congr (same : ∀ i, x i c = y i c) (h : Leads c y Q) : Leads c x Q := by
  unfold Leads at h ⊢
  rwa [funext same]

theorem Leads.ite {p : Prop} [Decidable p] (yes : p → Leads c x Q) (no : ¬ p → Leads c y Q) :
    Leads c (fun i => if p then x i else y i) Q := by
  by_cases holds : p
  · simpa only [if_pos holds] using yes holds
  · simpa only [if_neg holds] using no holds

/-- What follows a step begins with the result of the step, and behind it. -/
theorem Leads.step {a : α} (runs : ∀ i, x i c = .ok a c') (next : Leads c' (fun i => f i a) S) :
    Leads c (fun i => x i >>= f i) S := by
  unfold Leads at next ⊢
  rwa [funext fun i => bind_of_ok (runs i)]

/-- Readers that end alike go on alike, if they go on. -/
theorem Leads.bind (first : Leads c x (Alike P))
    (next : ∀ a c', P (.ok a c') → Leads c' (fun i => f i a) S)
    (halts : ∀ halt c', P (.error halt c') → S fun _ => .error halt c') :
    Leads c (fun i => x i >>= f i) S := by
  obtain ⟨outcome, holds, same⟩ := first
  cases outcome with
  | ok a c' => exact .step same (next a c' holds)
  | error halt c' =>
      have stopped : ∀ i, (x i >>= f i) c = .error halt c' := fun i => bind_of_error (same i)
      unfold Leads
      rw [funext stopped]
      exact halts halt c' holds

end Rules

/-! ### Steps -/

section Steps

variable {Q : (ι → Outcome α) → Prop} {layout : Layout} {kind : Kind}

theorem Leads.pure {a : α} (holds : Q fun _ => .ok a c) : Leads c (fun _ => Pure.pure a) Q := holds

theorem Leads.fail {e : ParseError} (holds : Q fun _ => .error (.fault e) c) :
    Leads c (fun _ => Reader.fail e) Q := holds

theorem Leads.get {f : ι → Cursor → Reader α} (next : Leads c (fun i => f i c) Q) :
    Leads c (fun i => MonadState.get >>= f i) Q := .step (fun _ => rfl) next

theorem Leads.sees {f : ι → Bool → Reader α} (next : Leads c (fun i => f i (c.sees kind)) Q) :
    Leads c (fun i => Reader.sees kind >>= f i) Q := .step (fun _ => rfl) next

theorem Leads.currentSpan {f : ι → Span → Reader α}
    (next : Leads c (fun i => f i (c.current.elim layout.endSpan (·.span))) Q) :
    Leads c (fun i => Reader.currentSpan layout >>= f i) Q := .step (fun _ => rfl) next

theorem Leads.spanFrom {start : Nat} {f : ι → Span → Reader α}
    (next : Leads c (fun i => f i (layout.lines.span start (max c.passed start))) Q) :
    Leads c (fun i => Reader.spanFrom layout start >>= f i) Q := .step (fun _ => rfl) next

theorem Leads.advance {f : ι → Unit → Reader α} (next : Leads c.advance (fun i => f i ()) Q) :
    Leads c (fun i => Reader.advance >>= f i) Q := .step (fun _ => rfl) next

theorem Leads.skipNewlines {f : ι → Unit → Reader α}
    (next : Leads (c.skip (· == .newline)) (fun i => f i ()) Q) :
    Leads c (fun i => Reader.skipNewlines >>= f i) Q := .step (fun _ => rfl) next

theorem Leads.skipSeparators {f : ι → Unit → Reader α}
    (next : Leads (c.skip Kind.isSeparator) (fun i => f i ()) Q) :
    Leads c (fun i => Reader.skipSeparators >>= f i) Q := .step (fun _ => rfl) next

theorem Leads.unexpected {expected : String} (refused : ∀ e, Q fun _ => .error (.fault e) c) :
    Leads c (fun _ => Reader.unexpected layout expected) Q := by
  apply Leads.get
  cases c.current with
  | none => exact .fail (refused _)
  | some token => exact .fail (refused _)

/-- A token is taken if it is of the kind that is asked for. -/
theorem Leads.takeAs {Q : (ι → Outcome Token) → Prop} {expected : String}
    (taken : ∀ token, c.current = some token → token.kind = kind → Q fun _ => .ok token c.advance)
    (refused : (∀ token ∈ c.current, token.kind ≠ kind) → ∀ e, Q fun _ => .error (.fault e) c) :
    Leads c (fun _ => Reader.takeAs layout kind expected) Q := by
  apply Leads.get
  cases found : c.current with
  | none => exact .unexpected (refused (by simp [found]))
  | some token =>
      refine Leads.ite (fun same => ?_) fun other => ?_
      · exact .advance (.pure (taken token found same))
      · exact .unexpected (refused (by simpa [found] using other))

end Steps

/-! ## Single readers -/

/-- What is asked of an outcome: `Q` of a result and the cursor behind it, and `halts` of the cursor where
a reader stops without a result. -/
def Owed (halts : Cursor → Prop) (Q : α → Cursor → Prop) : Outcome α → Prop
  | .ok a c' => Q a c'
  | .error _ c' => halts c'

/-- From `c`, a reader gives a result that has `Q` together with the cursor behind it, or it stops without
a result where `halts` holds. -/
def Ensures (halts : Cursor → Prop) (c : Cursor) (x : Reader α) (Q : α → Cursor → Prop) : Prop :=
  Leads c (fun _ : Unit => x) (Alike (Owed halts Q))

/-- Nothing is asked of a reader that stops without a result. -/
abbrev MayHalt (_ : Cursor) : Prop := True

/-- A reader does not stop without a result. -/
abbrev NeverHalts (_ : Cursor) : Prop := False

section Single

variable {halts : Cursor → Prop} {x : Reader α} {f : α → Reader β} {P Q : α → Cursor → Prop}
  {R : β → Cursor → Prop} {a : α}

theorem Alike.single {S : Outcome α → Prop} {outcome : Outcome α} (holds : S outcome) :
    Alike S fun _ : ι => outcome := ⟨outcome, holds, fun _ => rfl⟩

/-- Without a demand for a result, there is only something to show where there is one. -/
theorem ensures_of_ok (h : ∀ a c', x c = .ok a c' → Q a c') : Ensures MayHalt c x Q := by
  refine .single ?_
  cases run : x c with
  | ok a c' => exact h a c' run
  | error => trivial

theorem Ensures.of_run (h : Ensures halts c x Q) (run : x c = .ok a c') : Q a c' := by
  obtain ⟨outcome, owed, same⟩ := h
  have only : x c = outcome := same ()
  rw [← only, run] at owed
  exact owed

/-- Where a result is asked for, there is one. -/
theorem Ensures.exists_run (h : Ensures NeverHalts c x Q) : ∃ a c', x c = .ok a c' ∧ Q a c' := by
  obtain ⟨outcome, owed, same⟩ := h
  cases outcome with
  | ok a c' => exact ⟨a, c', same (), owed⟩
  | error => exact owed.elim

theorem Ensures.of_error {halt : Halt} (h : Ensures halts c x Q) (run : x c = .error halt c') :
    halts c' := by
  obtain ⟨outcome, owed, same⟩ := h
  have only : x c = outcome := same ()
  rw [← only, run] at owed
  exact owed

theorem Ensures.pure (holds : Q a c) : Ensures halts c (Pure.pure a) Q := Leads.pure (.single holds)

theorem Ensures.halt {halt : Halt} (may : halts c) : Ensures halts c (throw halt : Reader α) Q :=
  .single may

theorem Ensures.step (run : x c = .ok a c') (holds : Q a c') : Ensures halts c x Q :=
  ⟨.ok a c', holds, fun _ => run⟩

theorem Ensures.imp {halts' : Cursor → Prop} (h : Ensures halts c x P) (imp : ∀ a c', P a c' → Q a c')
    (stop : ∀ c', halts c' → halts' c') : Ensures halts' c x Q := by
  obtain ⟨outcome, owed, same⟩ := h
  refine ⟨outcome, ?_, same⟩
  cases outcome with
  | ok a c' => exact imp a c' owed
  | error halt c' => exact stop c' owed

theorem Ensures.mono (h : Ensures halts c x P) (imp : ∀ a c', P a c' → Q a c') : Ensures halts c x Q :=
  h.imp imp fun _ may => may

theorem Ensures.bind (first : Ensures halts c x P)
    (next : ∀ a c', P a c' → Ensures halts c' (f a) R) : Ensures halts c (x >>= f) R :=
  Leads.bind first next fun halt c' may => ⟨.error halt c', may, fun _ => rfl⟩

end Single

end Reader

/-! ## What holds of the tokens ahead -/

/-- Nothing is asked of a token. -/
abbrev AnyToken (_ : Token) : Prop := True

namespace Cursor

/-- All tokens from the cursor on have a property. -/
structure TokensHave (T : Token → Prop) (c : Cursor) : Prop where
  current : ∀ token ∈ c.current, T token
  rest : ∀ token, .ok token ∈ c.rest → T token

variable {T : Token → Prop} {lexemes : List Lexeme}

theorem tokensHave_any (c : Cursor) : c.TokensHave AnyToken := ⟨fun _ _ => trivial, fun _ _ => trivial⟩

theorem forall_nextToken (all : ∀ token, .ok token ∈ lexemes → T token) :
    (∀ token ∈ (nextToken lexemes).2.1, T token) ∧
      ∀ token, .ok token ∈ (nextToken lexemes).2.2 → T token := by
  induction lexemes with
  | nil => exact ⟨nofun, nofun⟩
  | cons lexeme lexemes ih =>
      have later : ∀ token, .ok token ∈ lexemes → T token :=
        fun token member => all token (List.mem_cons_of_mem _ member)
      cases lexeme with
      | ok token =>
          refine ⟨?_, later⟩
          rintro _ ⟨⟩
          exact all token List.mem_cons_self
      | error fault => exact ih later

theorem tokensHave_ofLexemes (all : ∀ token, .ok token ∈ lexemes → T token) :
    (ofLexemes lexemes).TokensHave T := by
  obtain ⟨current, rest⟩ := forall_nextToken fun token member => all token (List.mem_filter.mp member).1
  exact ⟨current, rest⟩

theorem TokensHave.advance (all : c.TokensHave T) : c.advance.TokensHave T := by
  obtain ⟨current, rest⟩ := forall_nextToken all.rest
  exact ⟨current, rest⟩

theorem TokensHave.skip (all : c.TokensHave T) (p : Kind → Bool) : (c.skip p).TokensHave T := by
  unfold Cursor.skip
  generalize c.remaining = limit
  induction limit generalizing c with
  | zero => exact all
  | succ limit ih =>
      rw [skipUpTo]
      split
      · exact ih all.advance
      · exact all

end Cursor

namespace Reader

/-- Where the tokens ahead have `T`, whatever a reader gives has `P`, and the tokens behind it have `T`. -/
def Always (T : Token → Prop) (x : Reader α) (P : α → Prop) : Prop :=
  ∀ c : Cursor, c.TokensHave T → Ensures (Cursor.TokensHave T) c x fun a c' => P a ∧ c'.TokensHave T

section Tokens

variable {T : Token → Prop} {x : Reader α} {f : α → Reader β} {P P' : α → Prop} {Q : β → Prop}
  {layout : Layout}

theorem always_of_ensures (h : ∀ c, Ensures MayHalt c x fun a _ => P a) : Always AnyToken x P :=
  fun c _ => (h c).imp (fun _ c' holds => ⟨holds, c'.tokensHave_any⟩) fun c' _ => c'.tokensHave_any

theorem Always.ensures (always : Always AnyToken x P) (c : Cursor) : Ensures MayHalt c x fun a _ => P a :=
  (always c c.tokensHave_any).imp (fun _ _ ⟨holds, _⟩ => holds) fun _ _ => trivial

theorem Always.of_run {a : α} (always : Always T x P) (all : c.TokensHave T) (run : x c = .ok a c') : P a :=
  ((always c all).of_run run).1

theorem Always.tokens_of_run {a : α} (always : Always T x P) (all : c.TokensHave T)
    (run : x c = .ok a c') : c'.TokensHave T := ((always c all).of_run run).2

theorem Always.tokens_of_error {halt : Halt} (always : Always T x P) (all : c.TokensHave T)
    (run : x c = .error halt c') : c'.TokensHave T := (always c all).of_error run

theorem Always.mono (always : Always T x P) (imp : ∀ a, P a → P' a) : Always T x P' :=
  fun c all => (always c all).mono fun a _ ⟨holds, kept⟩ => ⟨imp a holds, kept⟩

theorem Always.bind (first : Always T x P) (next : ∀ a, P a → Always T (f a) Q) : Always T (x >>= f) Q :=
  fun c all => (first c all).bind fun a c' ⟨holds, kept⟩ => next a holds c' kept

/-- Where nothing is asked of the tokens, a step whose result does not matter is passed over. -/
theorem Always.after (next : ∀ a, Always AnyToken (f a) Q) : Always AnyToken (x >>= f) Q := by
  have first : Always AnyToken x fun _ => True :=
    always_of_ensures fun _ => ensures_of_ok fun _ _ _ => trivial
  exact first.bind fun a _ => next a

theorem Always.pure {a : α} (holds : P a) : Always T (Pure.pure a) P :=
  fun _ all => Ensures.pure ⟨holds, all⟩

theorem always_exhausted : Always T (exhausted : Reader α) P := fun _ all => .halt all

theorem always_fail (error : ParseError) : Always T (fail error : Reader α) P := fun _ all => .halt all

theorem always_unexpected (expected : String) : Always T (unexpected layout expected : Reader α) P :=
  fun _ all => Leads.unexpected fun _ => .single all

theorem Always.get {f : Cursor → Reader β} (next : ∀ c, c.TokensHave T → Always T (f c) Q) :
    Always T (MonadState.get >>= f) Q := fun c all => Leads.get (next c all c all)

theorem Always.sees {kind : Kind} {f : Bool → Reader β} (next : ∀ b, Always T (f b) Q) :
    Always T (Reader.sees kind >>= f) Q := fun c all => Leads.sees (next _ c all)

theorem Always.currentSpan {f : Span → Reader β} (next : ∀ span, Always T (f span) Q) :
    Always T (Reader.currentSpan layout >>= f) Q := fun c all => Leads.currentSpan (next _ c all)

theorem Always.spanFrom {start : Nat} {f : Span → Reader β} (next : ∀ span, Always T (f span) Q) :
    Always T (Reader.spanFrom layout start >>= f) Q := fun c all => Leads.spanFrom (next _ c all)

theorem Always.advance {f : Unit → Reader β} (next : Always T (f ()) Q) :
    Always T (Reader.advance >>= f) Q := fun _ all => Leads.advance (next _ all.advance)

theorem Always.skipNewlines {f : Unit → Reader β} (next : Always T (f ()) Q) :
    Always T (Reader.skipNewlines >>= f) Q := fun _ all => Leads.skipNewlines (next _ (all.skip _))

theorem Always.skipSeparators {f : Unit → Reader β} (next : Always T (f ()) Q) :
    Always T (Reader.skipSeparators >>= f) Q := fun _ all => Leads.skipSeparators (next _ (all.skip _))

theorem always_takeAs (kind : Kind) (expected : String) :
    Always T (takeAs layout kind expected) fun token => token.kind = kind ∧ T token := by
  intro c all
  refine Leads.takeAs (fun token found same => .single ⟨⟨same, ?_⟩, all.advance⟩) fun _ _ => .single all
  exact all.current token found

theorem Always.expect {kind : Kind} {f : Token → Reader β} (next : ∀ token, Always T (f token) Q) :
    Always T (Reader.expect layout kind >>= f) Q := (always_takeAs kind _).bind fun token _ => next token

theorem Always.name {what : String} {f : Token → Reader β}
    (next : ∀ token, token.kind = .identifier → T token → Always T (f token) Q) :
    Always T (Reader.name layout what >>= f) Q :=
  (always_takeAs .identifier what).bind fun token ⟨kind, holds⟩ => next token kind holds

end Tokens

end Reader
end Surface
end Clausal
