import Clausal.Proofs.Syntax.Progress
import Clausal.Proofs.Syntax.Segmentation

/-!
# The tokens ahead of a cursor

What a cursor still has to read is a list of tokens (`Cursor.tokens`): moving on drops the first of them,
skipping drops a front of them, and whatever is reached by moving on has an end of them.  The tokens of a
source text stand in order, and each carries the line and column of its first byte (`TokensStand`).
-/

namespace Clausal

open Token (Kind Lexeme)

namespace Token

/-- The line and the column in the span of a token are those of its first byte. -/
theorem span_of_mem_scanFrom {lines : LineTable} {text : List Char} {skip offset : Nat} {token : Token}
    (member : .ok token ∈ scanFrom lines skip offset text) :
    token.span = lines.span token.span.start token.span.stop := by
  obtain ⟨c, cs, kind, more, start, stop, -, rfl⟩ := exists_find_of_mem_scanFrom member
  rfl

end Token

namespace Surface

/-! ## Tokens of lexemes -/

/-- The tokens among some lexemes. -/
def tokensIn (lexemes : List Lexeme) : List Token := lexemes.filterMap Except.toOption

/-- The tokens of a source text that are read: all but its comments. -/
def tokensOf (source : List Char) : List Token :=
  tokensIn ((Token.scan source).filter fun l => !Cursor.isComment l)

section Tokens

variable {token : Token} {lexemes : List Lexeme} {source : List Char}

theorem mem_tokensIn : token ∈ tokensIn lexemes ↔ .ok token ∈ lexemes := by
  simp only [tokensIn, List.mem_filterMap]
  constructor
  · rintro ⟨lexeme, member, found⟩
    cases lexeme with
    | ok other => cases found; exact member
    | error fault => cases found
  · exact fun member => ⟨_, member, rfl⟩

/-- Tokens of a text in order, each of at least one byte and with the line and column of its first byte. -/
structure TokensStand (lines : LineTable) (tokens : List Token) : Prop where
  ordered : tokens.Pairwise fun a b => a.span.stop ≤ b.span.start
  solid : ∀ token ∈ tokens, token.span.start < token.span.stop
  placed : ∀ token ∈ tokens, token.span = lines.span token.span.start token.span.stop

theorem TokensStand.sublist {lines : LineTable} {tokens some : List Token} (stand : TokensStand lines tokens)
    (sublist : some.Sublist tokens) : TokensStand lines some where
  ordered := stand.ordered.sublist sublist
  solid token member := stand.solid token (sublist.subset member)
  placed token member := stand.placed token (sublist.subset member)

theorem mem_scan_of_mem_tokensOf (member : token ∈ tokensOf source) : .ok token ∈ Token.scan source :=
  (List.mem_filter.mp (mem_tokensIn.mp member)).1

theorem tokensOf_stand (source : List Char) : TokensStand (LineTable.ofText source) (tokensOf source) where
  ordered := by
    refine List.Pairwise.filterMap _ ?_ ((Token.scan_faithful source).ordered.filter _)
    rintro (fault | a) (fault | b) before c found d found' <;> cases found <;> cases found'
    exact before
  solid token member := ((Token.scan_faithful source).inside _ (mem_scan_of_mem_tokensOf member)).1
  placed _ member := Token.span_of_mem_scanFrom (mem_scan_of_mem_tokensOf member)

end Tokens

/-! ## Moving on -/

namespace Cursor

/-- The tokens from the cursor on. -/
def tokens (c : Cursor) : List Token :=
  match c.current with
  | some token => token :: tokensIn c.rest
  | none => []

variable {c c' : Cursor} {token : Token} {n : Nat}

theorem tokens_of_current (found : c.current = some token) : c.tokens = token :: tokensIn c.rest := by
  rw [tokens, found]

theorem tokens_of_ended (ended : c.current = none) : c.tokens = [] := by
  rw [tokens, ended]

theorem tokens_nextToken (lexemes : List Lexeme) (passed : Nat) (errors : List ParseError) :
    tokens ⟨(nextToken lexemes).2.1, (nextToken lexemes).2.2, passed, errors⟩ = tokensIn lexemes := by
  induction lexemes with
  | nil => rfl
  | cons lexeme rest ih =>
      cases lexeme with
      | ok token => rfl
      | error fault => exact ih

theorem tokens_ofLexemes (source : List Char) :
    (ofLexemes (Token.scan source)).tokens = tokensOf source := tokens_nextToken _ _ _

theorem tokens_advance (found : c.current = some token) : c.tokens = token :: c.advance.tokens := by
  rw [tokens_of_current found, advance, tokens_nextToken]

theorem passed_advance (found : c.current = some token) : c.advance.passed = token.span.stop := by
  simp [advance, found]

theorem seesAny_eq (p : Kind → Bool) (found : c.current = some token) : c.seesAny p = p token.kind := by
  simp [seesAny, kind?, found]

/-- Skipping drops the leading tokens of the given kinds. -/
theorem tokens_skip (p : Kind → Bool) (c : Cursor) :
    (c.skip p).tokens = c.tokens.dropWhile fun token => p token.kind := by
  -- For every limit that is enough, since the limit of the next round is the one that is left.
  have upTo : ∀ limit c, c.remaining ≤ limit →
      (skipUpTo p limit c).tokens = c.tokens.dropWhile fun token => p token.kind := by
    intro limit
    induction limit with
    | zero =>
        intro c none
        cases found : c.current with
        | none => rw [skipUpTo, tokens_of_ended found, List.dropWhile_nil]
        | some token => simp [remaining, found] at none
    | succ limit ih =>
        intro c le
        rw [skipUpTo]
        cases found : c.current with
        | none =>
            have unseen : c.seesAny p = false := by simp [seesAny, kind?, found]
            rw [unseen, if_neg Bool.false_ne_true, tokens_of_ended found, List.dropWhile_nil]
        | some token =>
            rw [seesAny_eq p found, tokens_advance found, List.dropWhile_cons]
            have fewer := remaining_advance (found ▸ rfl : c.current.isSome = true)
            split
            · exact ih _ (by omega)
            · exact tokens_advance found
  exact upTo _ c (Nat.le_refl _)

/-- What is reached by moving on has an end of the tokens. -/
theorem Passes.tokens_eq (passes : Passes n c c') :
    ∃ taken, c.tokens = taken ++ c'.tokens ∧ n ≤ taken.length := by
  induction passes with
  | here => exact ⟨[], rfl, Nat.le_refl 0⟩
  | @on n c c' token _ ih =>
      rcases Option.isSome_iff_exists.mp token with ⟨first, found⟩
      rcases ih with ⟨taken, split, enough⟩
      refine ⟨first :: taken, ?_, ?_⟩
      · rw [tokens_advance found, split, List.cons_append]
      · rw [List.length_cons]
        omega

/-- Where the end of a text is reached from a token, nothing is left, not even a fault. -/
theorem Passes.rest_of_ended (passes : Passes n c c') (token : c.current.isSome = true)
    (ended : c'.current = none) : c'.rest = [] := by
  rcases passes.eq_or_advance with rfl | ⟨before, rfl⟩
  · rw [ended] at token
    cases token
  · -- The last move looked for a token behind all faults.
    exact rest_advance ended

theorem advance_of_ended (ended : c.current = none) (nothing : c.rest = []) :
    c.advance = { c with current := none, rest := [] } := by
  simp [advance, ended, nothing, nextToken]

end Cursor
end Surface
end Clausal
